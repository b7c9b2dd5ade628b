import MouseKeeper.FileEngine.Steps
import MouseKeeper.Posix.NoLinks

/-!
What becomes of the files during a batch.

In a tree without links every file is followed through the steps: a move and a trash take it
along, and the writing of `README.md` leaves it in the backup. All that can go wrong is that
the backup, or the mark that there was no `README.md`, is written over a file.
-/

namespace MouseKeeper.FileEngine

open Posix Trace

variable (os : Os) (g : PathGuard)

/-- No file but `README.md` is overwritten or removed by the step. -/
def Spares (e : Effect) : Prop := ∀ p c, e.destroyed = some (p, c) → p = g.root ++ [readmeName]

/-- Where the step leaves what a file held. -/
def carry (s : Sys) (e : Effect) (p : Path) : Path :=
  match e.purpose, e.act with
  | .target .move _, .fs (.rename src dst _ _) => Tree.reroute src dst p
  | .target .trash _, .fs (.rename src dst _ _) => Tree.reroute src dst p
  | .target .readmeWrite id, .fs (.write q _ _) =>
    if p = q then (s.tree.place (join g.root (backupRelative id))).toOption.getD p else p
  | _, _ => p

/-- Where the steps leave what a file held. -/
def carried : Sys → List (Effect × Sys) → Path → Path
  | _, [], p => p
  | s, (e, s') :: l, p => carried s' l (carry g s e p)

/-- What every file held is still held where the steps have left it. -/
def Conserved (s : Sys) (l : List (Effect × Sys)) : Prop :=
  ∀ p c m i, s.tree.get p = some (.file c m i) →
    ∃ m' i', (after s l).tree.get (carried g s l p) = some (.file c m' i')

/-- A move takes the file of some proposal to its destination, a trash takes one into the folder
of its operation, and only `README.md` is written over. -/
def Lands (report : ProposalReport) (s : Sys) (e : Effect) : Prop :=
  match e.purpose, e.act with
  | .target .move _, .fs (.rename src dst _ _) => ∃ p ∈ report.proposals, p.action = .move ∧
      g.resolveExisting s.tree p.fromPath = .ok src ∧ g.resolveForCreate s.tree p.toPath = .ok dst
  | .target .trash id, .fs (.rename src dst _ _) => ∃ p ∈ report.proposals, p.action = .trash ∧
      g.resolveExisting s.tree p.fromPath = .ok src ∧
      g.resolveForCreate s.tree (trashedRelativePath id) = .ok dst
  | .target .readmeWrite _, .fs (.write q _ _) => q = g.root ++ [readmeName]
  | _, _ => True

/-- Wherever the call stops, no file is lost, and none but `README.md` overwritten. -/
def NothingLost (root : RawPath) (report : ProposalReport) (s : Sys) : Prop :=
  ∀ g, PathGuard.new s.tree root = .ok g → ∀ l, l <+: ((executeProposals os root report).run s).steps →
    Conserved g s l ∧ Chain (fun s e _ => Spares g e ∧ Lands g report s e) s l

/-- The backup of `README.md`, or the mark that there is none, would not meet a file. -/
def BackupFree (id : String) (t : Tree) : Prop :=
  if t.existsAt (join g.root "README.md") then
    t.isFileAt (join g.root "README.md") → t.isFileAt (join g.root (backupRelative id)) = false
  else t.isFileAt (join g.root (absentRelative id)) = false

/-- The same for an item, in the state before it. -/
def ItemBackupFree (i : ℕ) (check : PrecheckResult) (s : Sys) : Prop :=
  check.status = .ready → check.action = .readmeWrite → check.fromPath = "README.md" →
    check.toPath = "README.md" → check.content.isSome →
      BackupFree g (opId (unixMs os s) i) s.tree

/-- The same for the items of a batch, each in the state it is reached in. -/
def BatchBackupFree (report : ProposalReport) (s : Sys) : Prop :=
  ∀ precheck, precheckProposals os g s report = .ok precheck →
    ∀ store s₁, Ends (JournalStore.openStore os g.root) s store s₁ →
      AtEach (executeCheck os g s₁.journal store) (ItemBackupFree os g) precheck.checks 0 {} s₁

variable {os g} {s s' : Sys} {check : PrecheckResult} {e : Effect} {store : JournalStore} {i : ℕ}

/-! ### One step -/

lemma ItemStep.noLinks (h : ItemStep g check s e s') (hl : NoLinks s.tree) : NoLinks s'.tree := by
  cases h with
  | stateDir hd => exact hl.grown hd.grown
  | opened | row | recovered => exact hl
  | parent id hd => exact hl.grown hd.grown
  | moved id haction hsrc hdst hfree hr => exact hl.applies hr.change
  | trashed n haction hsrc hdst hfree hr => exact hl.applies hr.change
  | metadata n hm hfree hw => exact hl.applies hw.change
  | createdDir id haction hp hd => exact hl.grown hd.grown
  | createdFile id haction hp hw hrest => exact hl.applies hw
  | backup ms i haction hr hfile hw => exact hl.applies hw.change
  | absent ms i haction hr hw => exact hl.applies hw.change
  | readme ms i haction hcontent hback hw => exact hl.applies hw.change

/-- Where the trash would find its metadata instead of a free place, there is a link. -/
lemma not_onMetadata {n : ℕ} {dst : Path} {t : Tree} (hl : NoLinks t)
    (hdst : g.resolveForCreate t (trashedRelativePath (trashId n)) = .ok dst) :
    ¬ OnMetadata g n dst t := by
  rintro ⟨m, q, hm, hmq, hdq, -⟩
  obtain ⟨⟨_, r, name, -, -, -, hname, rfl⟩, -⟩ := PathGuard.resolveForCreate_ok.mp hdst
  obtain ⟨⟨_, r', name', -, -, -, hname', rfl⟩, -⟩ := PathGuard.resolveForCreate_ok.mp hm
  obtain ⟨hq, -⟩ := hl.realpath_raw.mp hmq
  obtain ⟨hq', -⟩ := hl.realpath_raw.mp hdq
  -- the two places have different last names
  obtain ⟨-, hlast⟩ := List.append_inj' (hq.symm.trans hq') rfl
  rw [join_trashed, fileName_raw] at hname
  rw [join_metadata, fileName_raw] at hname'
  simp only [List.getLast?_append, List.getLast?_cons_cons, List.getLast?_singleton,
    Option.some_or, Option.some.injEq] at hname hname'
  rw [← hname, ← hname'] at hlast
  revert hlast
  decide

/-- The backup of `README.md` is another place. -/
lemma backup_ne {t : Tree} {p q : Path} {ms : ℕ} (hl : NoLinks t)
    (hp : t.place (join g.root (backupRelative (opId ms i))) = .ok p ∨
      t.place (join g.root (absentRelative (opId ms i))) = .ok p)
    (hq : q = g.root ++ [readmeName]) : p ≠ q := by
  have hlen : p.length = g.root.length + 3 := by
    rcases hp with hp | hp
    · rw [join_backup g.root (not_slash_opId ms i), ← raw_snoc] at hp
      rw [hl.place_raw hp]
      simp
    · rw [join_absent g.root (not_slash_opId ms i), ← raw_snoc] at hp
      rw [hl.place_raw hp]
      simp
  rintro rfl
  rw [hq] at hlen
  simp at hlen

lemma place_readme {t : Tree} {q : Path} (hl : NoLinks t)
    (hq : t.place (join g.root "README.md") = .ok q) : q = g.root ++ [readmeName] := by
  rw [join_readme, ← raw_snoc] at hq
  exact hl.place_raw hq

/-- What is overwritten by a step that spares the files was not there. -/
lemma Spares.old {p : Path} {old : Option Content} {new : Content} {purpose : Purpose}
    (h : Spares g ⟨purpose, .fs (.write p old new)⟩) (hp : p ≠ g.root ++ [readmeName]) :
    old = none := by
  cases old with
  | none => rfl
  | some b => exact absurd (h p b rfl) hp

lemma carry_readme {id : String} {p q : Path} {old : Option Content} {new : Content} :
    carry g s ⟨.target .readmeWrite id, .fs (.write q old new)⟩ p =
      if p = q then (s.tree.place (join g.root (backupRelative id))).toOption.getD p else p := rfl

/-- **One step.** A step that spares the files leaves what each held where it says. -/
lemma ItemStep.carries (h : ItemStep g check s e s') (hl : NoLinks s.tree) (hs : Spares g e)
    {p : Path} {c : Content} {m : Option ℕ} {j : ℕ} (hp : s.tree.get p = some (.file c m j)) :
    ∃ m' j', s'.tree.get (carry g s e p) = some (.file c m' j') := by
  cases h with
  | stateDir hd =>
    have hk := hd.grown.keeps hp
    obtain ⟨c, d, -, rfl, -⟩ := hd
    exact ⟨m, j, hk⟩
  | opened | row | recovered => exact ⟨m, j, hp⟩
  | parent id hd =>
    have hk := hd.grown.keeps hp
    obtain ⟨c, d, -, rfl, -⟩ := hd
    exact ⟨m, j, hk⟩
  | moved id haction hsrc hdst hfree hr =>
    have hc := hr.change
    cases hc.replaces_none (hl.free_raw.mp hfree)
    exact ⟨m, j, hc.keeps_rename hp⟩
  | trashed n haction hsrc hdst hfree hr =>
    have hc := hr.change
    have hfree := hfree.resolve_right (not_onMetadata hl hdst)
    cases hc.replaces_none (hl.free_raw.mp hfree)
    exact ⟨m, j, hc.keeps_rename hp⟩
  | metadata n hm hfree hw => exact ⟨m, j, hw.change.keeps_write hp⟩
  | createdDir id haction hp' hd => exact ⟨m, j, hd.grown.keeps hp⟩
  | createdFile id haction hp' hw hrest => exact ⟨m, j, hw.keeps_write hp⟩
  | backup ms i haction hr hfile hw =>
    cases hs.old (backup_ne hl (.inl hw.place) rfl)
    exact ⟨m, j, hw.change.keeps_write hp⟩
  | absent ms i haction hr hw =>
    cases hs.old (backup_ne hl (.inr hw.place) rfl)
    exact ⟨m, j, hw.change.keeps_write hp⟩
  | @readme ms i q content old s' haction hcontent hback hw =>
    have hq := place_readme hl hw.place
    obtain ⟨m', j', -, hget⟩ := hw.change
    by_cases hpq : p = q
    · -- it is in the backup, since there was a `README.md` to back up
      subst hpq
      rcases hback with ⟨r, q', b, m₁, j₁, m₂, j₂, hr, hb, hq', hbak⟩ |
        ⟨q', m₁, j₁, hq', -, hno | hr⟩
      · rw [join_readme, ← raw_snoc, ← hq, hl.realpath_raw] at hr
        rw [hr.1, hp] at hb
        cases hb
        refine ⟨m₂, j₂, ?_⟩
        have hne : q' ≠ p := backup_ne hl (.inl hq') hq
        rw [carry_readme, if_pos rfl, hq']
        change s'.tree.get q' = _
        rw [hget, if_neg hne, hbak]
      · rw [join_readme, ← raw_snoc, ← hq, hl.free_raw, hp] at hno
        cases hno
      · rw [join_readme, ← raw_snoc, ← hq, hl.realpath_raw] at hr
        exact absurd hr.1 (backup_ne hl (.inr hq') hq)
    · refine ⟨m, j, ?_⟩
      rw [carry_readme, if_neg hpq, hget, if_neg hpq, hp]

/-- A step for one of the proposals, or for the store. -/
def ReportStep (g : PathGuard) (report : ProposalReport) (s : Sys) (e : Effect) (s' : Sys) : Prop :=
  ∃ check, ItemStep g check s e s' ∧
    (e.purpose = .store ∨ ∃ p ∈ report.proposals, Checks p check)

lemma ReportStep.noLinks {report : ProposalReport} (h : ReportStep g report s e s')
    (hl : NoLinks s.tree) : NoLinks s'.tree := by
  obtain ⟨check, h, -⟩ := h
  exact h.noLinks hl

/-- **Along a run.** Steps that spare the files conserve what they hold. -/
theorem conserved_of_spares {report : ProposalReport} {l : List (Effect × Sys)}
    (h : Chain (ReportStep g report) s l)
    (hl : NoLinks s.tree) (hs : ∀ x ∈ l, Spares g x.1) : Conserved g s l := by
  induction h with
  | nil => exact fun p c m j hp => ⟨m, j, hp⟩
  | cons h _ ih =>
    intro p c m j hp
    obtain ⟨m', j', hp'⟩ := h.choose_spec.1.carries hl (hs _ List.mem_cons_self) hp
    exact ih (h.noLinks hl) (fun x hx => hs x (List.mem_cons_of_mem _ hx)) _ _ _ _ hp'

/-! ### Which steps spare the files -/

/-- Items other than `ReadmeWrite` spare the files. -/
lemma ItemStep.spares (h : ItemStep g check s e s') (hl : NoLinks s.tree)
    (haction : check.action ≠ .readmeWrite) : Spares g e := by
  intro p c hd
  cases h with
  | stateDir hm | parent id hm =>
    obtain ⟨_, _, ⟨q, i, rfl, -⟩, rfl, -⟩ := hm
    cases hd
  | opened | row | recovered | metadata | createdDir | createdFile => cases hd
  | moved id _ hsrc hdst hfree hr =>
    cases hr.change.replaces_none (hl.free_raw.mp hfree)
    cases hd
  | trashed n _ hsrc hdst hfree hr =>
    have hfree := hfree.resolve_right (not_onMetadata hl hdst)
    cases hr.change.replaces_none (hl.free_raw.mp hfree)
    cases hd
  | backup _ _ ha | absent _ _ ha | readme _ _ ha => exact absurd ha haction

/-- A file written elsewhere than at `README.md` spares the files exactly if it is new. -/
lemma write_spares {t : Tree} {raw : RawPath} {content : Content} (m : Option ℕ) (j : ℕ)
    {purpose : Purpose} (hne : ∀ q, t.place raw = .ok q → q ≠ g.root ++ [readmeName]) :
    (∀ c t', t.write raw content m j = .ok (c, t') → Spares g ⟨purpose, .fs c⟩) ↔
      t.isFileAt raw = false := by
  constructor
  · intro h
    rw [← Bool.not_eq_true, Tree.isFileAt_iff]
    rintro ⟨q, hq, hf⟩
    have hplace := Tree.place_of_realpath hq
    obtain ⟨b, m', i, hb⟩ := Tree.isFile_iff.mp hf
    obtain ⟨old, t', hw⟩ := Tree.write_succeeds content m j hplace (by simp [Tree.isDir, hb])
    cases (h _ _ hw).old (hne q hplace)
    obtain ⟨q', old, i, hq', hc, ⟨rfl, hn⟩ | ⟨b', m', rfl, -⟩, -⟩ := Tree.write_ok hw
    · rw [hplace] at hq'
      cases hq'
      rw [hb] at hn
      cases hn
    · cases hc
  · intro h c t' hw
    obtain ⟨q, old, i, hq, rfl, ⟨rfl, -⟩ | ⟨b, m', rfl, hb⟩, -⟩ := Tree.write_ok hw
    · nofun
    · rw [Tree.isFileAt_iff.mpr ⟨q, Tree.realpath_of_place hq (by rw [hb]; simp),
        Tree.isFile_iff.mpr ⟨b, m', i, hb⟩⟩] at h
      cases h

/-- A copy made elsewhere spares the files exactly if it is new, or there is nothing to copy. -/
lemma copy_spares {t : Tree} {src raw : RawPath} (m : Option ℕ) (j : ℕ)
    {purpose : Purpose} (hne : ∀ q, t.place raw = .ok q → q ≠ g.root ++ [readmeName]) :
    (∀ c t', t.copy src raw m j = .ok (c, t') → Spares g ⟨purpose, .fs c⟩) ↔
      (t.isFileAt src = true → t.isFileAt raw = false) := by
  constructor
  · intro h hsrc
    obtain ⟨p, hp, hf⟩ := Tree.isFileAt_iff.mp hsrc
    obtain ⟨b, m', i, hb⟩ := Tree.isFile_iff.mp hf
    rw [← Bool.not_eq_true]
    intro hc
    obtain ⟨q, hq, -⟩ := Tree.isFileAt_iff.mp hc
    have hw : ∀ c t', t.write raw (if p = q then [] else b) m j = .ok (c, t') →
        Spares g ⟨purpose, .fs c⟩ := by
      intro c t' hw
      refine h c t' ?_
      simp only [Tree.copy, Tree.readFile, hp, hb, Tree.place_of_realpath hq, bind, Except.bind]
      exact hw
    rw [(write_spares m j hne).mp hw] at hc
    cases hc
  · intro h c t' hcopy
    obtain ⟨p, q, b, m', i, hp, hb, -, hw⟩ := Tree.copy_ok hcopy
    have hsrc := Tree.isFileAt_iff.mpr ⟨p, hp, Tree.isFile_iff.mpr ⟨b, m', i, hb⟩⟩
    exact (write_spares m j hne).mpr (h hsrc) c t' hw

lemma dirs_spare {purpose : Purpose} {raw : RawPath} {d : Disk} :
    Emits (fun c => Spares g ⟨purpose, .fs c⟩) (Disk.createDirAll os.toKernel raw) d := by
  have h : Follows Disk.MakesDir (Disk.createDirAll os.toKernel raw) d := Disk.follows_createDirAll
  refine h.emits (I := fun _ => True) (fun _ _ _ _ _ => trivial) (fun a e b _ hab => ?_) trivial
  obtain ⟨p, i, rfl, -⟩ := hab
  nofun

/-- Once its folder is there. -/
lemma backup_spares {ms : ℕ} (hl : NoLinks s.tree) :
    Emits (Spares g) (do
      if ← Prog.read fun s => s.tree.existsAt (join g.root "README.md") then
        Prog.mapErr (fun e => ExecuteError.write (join g.root (backupRelative (opId ms i))) e.toText)
          (fs (.backup (opId ms i)) (Disk.copy os.toKernel (join g.root "README.md")
            (join g.root (backupRelative (opId ms i)))))
      else
        Prog.mapErr (fun e => ExecuteError.write (join g.root (absentRelative (opId ms i))) e.toText)
          (fs (.absent (opId ms i)) (Disk.write os.toKernel
            (join g.root (absentRelative (opId ms i))) []))) s ↔
      BackupFree g (opId ms i) s.tree := by
  rw [emits_read_bind, BackupFree]
  split
  · rw [emits_mapErr, emits_fs, Disk.copy, Disk.emits_call]
    exact copy_spares _ _ fun q hq => backup_ne hl (.inl hq) rfl
  · rw [emits_mapErr, emits_fs, Disk.write, Disk.emits_call]
    exact write_spares _ _ fun q hq => backup_ne hl (.inr hq) rfl

section Backup

variable {t t' : Tree} {ms : ℕ}

lemma isFileAt_backup (hl : NoLinks t) (hg : Disk.Grown t t') :
    t'.isFileAt (join g.root (backupRelative (opId ms i))) =
      t.isFileAt (join g.root (backupRelative (opId ms i))) := by
  rw [join_backup g.root (not_slash_opId ms i), ← raw_snoc]
  exact hl.isFileAt_grown hg

lemma isFileAt_absent (hl : NoLinks t) (hg : Disk.Grown t t') :
    t'.isFileAt (join g.root (absentRelative (opId ms i))) =
      t.isFileAt (join g.root (absentRelative (opId ms i))) := by
  rw [join_absent g.root (not_slash_opId ms i), ← raw_snoc]
  exact hl.isFileAt_grown hg

lemma isFileAt_readme (hl : NoLinks t) (hg : Disk.Grown t t') :
    t'.isFileAt (join g.root "README.md") = t.isFileAt (join g.root "README.md") := by
  rw [join_readme, ← raw_snoc]
  exact hl.isFileAt_grown hg

lemma existsAt_of_isFileAt {raw : RawPath} (h : t.isFileAt raw = true) : t.existsAt raw = true := by
  obtain ⟨q, hq, -⟩ := Tree.isFileAt_iff.mp h
  exact Tree.existsAt_iff.mpr ⟨q, hq⟩

/-- New directories do not get in the way of the backup. -/
lemma BackupFree.grown (h : BackupFree g (opId ms i) t) (hl : NoLinks t) (hg : Disk.Grown t t') :
    BackupFree g (opId ms i) t' := by
  unfold BackupFree at h ⊢
  rw [isFileAt_backup hl hg, isFileAt_absent hl hg, isFileAt_readme hl hg]
  split
  · intro hf
    rw [if_pos (existsAt_of_isFileAt hf)] at h
    exact h hf
  · next hno =>
    rwa [if_neg fun he => hno (existsAt_grown hg he)] at h

/-- Nor does it matter that they are there. -/
lemma BackupFree.of_grown (h : BackupFree g (opId ms i) t') (hl : NoLinks t)
    (hg : Disk.Grown t t') (hs : Tree.SameShape t t') : BackupFree g (opId ms i) t := by
  have he : t'.existsAt (join g.root "README.md") = true →
      t.existsAt (join g.root "README.md") = true := by
    intro h'
    obtain ⟨q, hq⟩ := Tree.existsAt_iff.mp h'
    exact Tree.existsAt_iff.mpr ⟨q, hs.symm.realpath hq⟩
  unfold BackupFree at h ⊢
  rw [isFileAt_backup hl hg, isFileAt_absent hl hg, isFileAt_readme hl hg] at h
  split
  · next hyes => rwa [if_pos (existsAt_grown hg hyes)] at h
  · next hno => rwa [if_neg fun h' => hno (he h')] at h

/-- Where the backup is not free, its folder is there. -/
lemma isDirAt_of_not_free (h : ¬ BackupFree g (opId ms i) t) (hl : NoLinks t) :
    t.isDirAt (Path.raw (g.root ++ [stateName, backupsName])) = true := by
  have hfile : t.isFileAt (join g.root (backupRelative (opId ms i))) = true ∨
      t.isFileAt (join g.root (absentRelative (opId ms i))) = true := by
    unfold BackupFree at h
    split at h
    · push Not at h
      exact .inl (by simpa using h.2)
    · exact .inr (by simpa using h)
  rw [join_backup g.root (not_slash_opId ms i), join_absent g.root (not_slash_opId ms i),
    ← raw_snoc, ← raw_snoc] at hfile
  rcases hfile with hf | hf <;> exact hl.isDirAt_parent hf

end Backup

/-- The backup spares the files exactly if it does not meet one. -/
lemma backupReadme_spares {ms : ℕ} (hl : NoLinks s.tree) :
    Emits (Spares g) (backupReadme os g (opId ms i)) s ↔ BackupFree g (opId ms i) s.tree := by
  unfold backupReadme
  simp only [parent_backup g.root (not_slash_opId ms i), emits_fs_bind]
  rw [and_iff_right dirs_spare]
  constructor
  · intro h
    by_contra hno
    obtain ⟨d, hd, hshape⟩ := Disk.ends_createDirAll (d := s.toDisk) (k := os.toKernel)
      (isDirAt_of_not_free hno hl)
    have hg := Disk.grown_of_ends hd
    have hl' : NoLinks ({ s with toDisk := d } : Sys).tree := hl.grown hg
    exact hno (((backup_spares hl').mp (h () d hd)).of_grown hl hg hshape)
  · intro h u d hd
    have hg := Disk.grown_of_ends hd
    have hl' : NoLinks ({ s with toDisk := d } : Sys).tree := hl.grown hg
    exact (backup_spares hl').mpr (h.grown hl hg)

lemma spares_row {place : Path} {entry : JournalEntry} {purpose : Purpose} :
    Spares g ⟨purpose, .appended place entry⟩ := nofun

lemma append_spares {ε β : Type} {entry : ℕ → JournalEntry} {f : Unit → Engine ε β}
    {purpose : Purpose} : Emits (Spares g) (store.append os purpose entry >>= f) s ↔
      Emits (Spares g) (f ()) (JournalStore.appended os entry s) := by
  rw [JournalStore.emits_append_bind]
  exact and_iff_right spares_row

/-- With nothing in the way of the backup, only `README.md` is written over. -/
lemma executeReadmeWrite_spares (hl : NoLinks s.tree) (haction : check.action = .readmeWrite) :
    Emits (Spares g) (executeReadmeWrite os g store check i) s ↔
      (check.fromPath = "README.md" → check.toPath = "README.md" → check.content.isSome →
        BackupFree g (opId (unixMs os s) i) s.tree) := by
  unfold executeReadmeWrite
  by_cases hpaths : check.fromPath ≠ "README.md" ∨ check.toPath ≠ "README.md"
  · rw [if_pos hpaths]
    refine ⟨fun _ hf ht _ => ?_, fun _ => emits_pure _⟩
    rcases hpaths with h | h
    · exact absurd hf h
    · exact absurd ht h
  · rw [if_neg hpaths]
    push Not at hpaths
    cases check.content with
    | none => simp
    | some content =>
      simp only [hpaths.1, hpaths.2, Option.isSome_some, forall_true_left]
      rw [emits_read_bind, emits_bind, backupReadme_spares hl]
      refine and_iff_left fun _ s₁ h₁ => append_spares.mpr (emits_bind.mpr ⟨?_, ?_⟩)
      · have hl₁ : NoLinks s₁.tree :=
          (follows_backupReadme (i := i) (unixMs os s) haction).ends
            (I := fun s => NoLinks s.tree) h₁ (fun _ _ _ ha hab => hab.noLinks ha) hl
        rw [emits_mapErr, emits_fs, Disk.write, Disk.emits_call]
        intro c t' hw p b hd
        obtain ⟨q, old, j, hq, rfl, -⟩ := Tree.write_ok hw
        have hreadme := place_readme hl₁ hq
        cases old with
        | none => cases hd
        | some old =>
          cases hd
          exact hreadme
      · exact fun _ _ _ => append_spares.mpr (emits_pure _)

/-- One item of the batch. -/
lemma executeCheck_spares (hl : NoLinks s.tree) (hdir : s.tree.isDir g.root = true)
    {prior : List JournalEntry} {tally : Tally} :
    Emits (Spares g) (executeCheck os g prior store i check tally) s ↔
      ItemBackupFree os g i check s := by
  unfold ItemBackupFree
  by_cases hready : check.status = .ready ∧ check.action = .readmeWrite
  · obtain ⟨hstatus, haction⟩ := hready
    simp only [hstatus, haction, forall_true_left]
    refine Iff.trans (b := Emits (Spares g) (executeReadmeWrite os g store check i) s) ?_
      (executeReadmeWrite_spares hl haction)
    unfold executeCheck executeReady
    rw [if_neg (by simp [hstatus]), haction, emits_bind]
    refine and_iff_left fun r _ _ => ?_
    cases r <;> exact emits_pure _
  · refine iff_of_true ?_ fun hstatus haction => absurd ⟨hstatus, haction⟩ hready
    by_cases haction : check.action = .readmeWrite
    · -- it is not ready, so at most a row is written
      have hstatus : check.status ≠ .ready := fun h => hready ⟨h, haction⟩
      unfold executeCheck recoverPlannedMove
      rw [if_pos hstatus, emits_bind]
      refine ⟨?_, fun r _ _ => by cases r <;> exact emits_pure _⟩
      split
      · exact emits_pure _
      · split
        · exact emits_pure _
        · rw [emits_read_bind]
          split
          · exact append_spares.mpr (emits_pure _)
          · exact emits_pure _
    · exact (follows_executeCheck hdir).emits (I := fun s => NoLinks s.tree)
        (fun _ _ _ ha hab => hab.noLinks ha) (fun _ _ _ ha hab => hab.spares ha haction) hl

/-! ### The batch -/

/-- Every step is for one of the proposals or for the store. -/
lemma follows_report {root : RawPath} {report : ProposalReport}
    (hg : PathGuard.new s.tree root = .ok g) :
    Follows (ReportStep g report) (executeProposals os root report) s := by
  unfold executeProposals
  refine follows_check_bind fun g' hg' => ?_
  rw [mapError_eq_ok, hg] at hg'
  cases hg'
  refine follows_check_bind fun precheck hprecheck => ?_
  have hopen : Follows (fun s e s' => e.purpose = .store ∧
      ItemStep g ⟨.move, "", "", none, .ready, none⟩ s e s')
        (JournalStore.openStore os g.root) s := storeSteps_openStore
  refine follows_bind (follows_mapErr (hopen.mono fun _ _ _ h => ⟨_, h.2, .inl h.1⟩))
    fun store s₁ h₁ => follows_read_bind (follows_bind ?_ fun _ _ _ => follows_pure _)
  have hdir := (JournalStore.grown_openStore (ends_mapErr.mp h₁)).isDir (new_ok hg).2
  refine follows_loop (Q := fun _ _ _ => True) (I := fun s => s.tree.isDir g.root = true) hdir
    (AtEach.of_forall fun _ _ _ => trivial) (fun i check tally s hcheck hs _ => ?_)
    fun _ _ _ ha h => ?_
  · refine (follows_executeCheck hs).mono fun _ _ _ h => ⟨check, h, .inr ?_⟩
    rw [mapError_eq_ok] at hprecheck
    unfold precheckProposals at hprecheck
    split at hprecheck
    · cases hprecheck
    · cases hprecheck
      obtain ⟨proposal, hp, rfl⟩ := List.mem_map.mp hcheck
      exact ⟨proposal, hp, checks_precheckProposal os g _ proposal⟩
  · obtain ⟨check, h, -⟩ := h
    exact (h.rootKept ha).1

lemma ReportStep.lands {report : ProposalReport} (h : ReportStep g report s e s')
    (hl : NoLinks s.tree) : Lands g report s e := by
  obtain ⟨check, h, hp⟩ := h
  cases h with
  | moved id haction hsrc hdst hfree hr =>
    obtain ⟨p, hmem, status, reason, rfl⟩ := hp.resolve_left nofun
    exact ⟨p, hmem, haction, hsrc, hdst⟩
  | trashed n haction hsrc hdst hfree hr =>
    obtain ⟨p, hmem, status, reason, rfl⟩ := hp.resolve_left nofun
    exact ⟨p, hmem, haction, hsrc, hdst⟩
  | readme ms i haction hcontent hback hw => exact place_readme hl hw.place
  | stateDir hm | parent id hm =>
    obtain ⟨_, _, -, rfl, -⟩ := hm
    trivial
  | opened | row | recovered | metadata | createdDir | createdFile | backup | absent => trivial

/-- Nothing is written over exactly if no backup meets a file. -/
lemma executeProposals_spares {root : RawPath} {report : ProposalReport} (hl : NoLinks s.tree)
    (hg : PathGuard.new s.tree root = .ok g) :
    Emits (Spares g) (executeProposals os root report) s ↔ BatchBackupFree os g report s := by
  unfold executeProposals
  rw [emits_check_bind]
  simp only [mapError_eq_ok, hg, Except.ok.injEq, forall_eq']
  rw [emits_check_bind]
  simp only [mapError_eq_ok]
  refine forall₂_congr fun precheck hprecheck => ?_
  unfold executePrechecked
  have hopen : Follows (ItemStep g ⟨.move, "", "", none, .ready, none⟩)
      (JournalStore.openStore os g.root) s := follows_openStore
  rw [emits_bind, emits_mapErr, and_iff_right (hopen.emits (I := fun s => NoLinks s.tree)
    (fun _ _ _ ha hab => hab.noLinks ha) (fun _ _ _ ha hab => hab.spares ha nofun) hl)]
  refine forall₂_congr fun store s₁ => ?_
  rw [ends_mapErr]
  refine forall_congr' fun h₁ => ?_
  rw [JournalStore.readAll, emits_read_bind, emits_bind,
    and_iff_left fun _ _ _ => emits_pure _]
  have hgrown := JournalStore.grown_openStore h₁
  refine emits_loop (I := fun s => NoLinks s.tree ∧ s.tree.isDir g.root = true)
    ⟨hl.grown hgrown, hgrown.isDir (new_ok hg).2⟩ ?_ ?_
  · exact fun i check tally s _ hs => executeCheck_spares hs.1 hs.2
  · intro i check tally s tally' s' _ hs he
    have hfollows : Follows (ItemStep g check)
        (executeCheck os g s₁.journal store i check tally) s := follows_executeCheck hs.2
    exact hfollows.ends
      (I := fun s => NoLinks s.tree ∧ s.tree.isDir g.root = true) he
      (fun _ _ _ ha hab => ⟨hab.noLinks ha.1, (hab.rootKept ha.2).1⟩) hs

lemma NothingLost.spares {root : RawPath} {report : ProposalReport}
    (h : NothingLost os root report s) (hg : PathGuard.new s.tree root = .ok g) :
    ∀ x ∈ ((executeProposals os root report).run s).steps, Spares g x.1 :=
  chain_labels.mp ((h g hg _ List.prefix_rfl).2.mono fun _ _ _ hx => hx.1)

/-- **No data loss.** In a tree without links, whatever prefix of the call has run, every file
is still held where the steps have left it and none but `README.md` was written over, exactly
if no backup meets a file. -/
theorem nothing_lost_iff (root : RawPath) (report : ProposalReport) (s : Sys)
    (hl : NoLinks s.tree) : NothingLost os root report s ↔
      ∀ g, PathGuard.new s.tree root = .ok g → BatchBackupFree os g report s := by
  refine forall₂_congr fun g hg => ?_
  rw [← executeProposals_spares hl hg]
  have hsteps : Chain (ReportStep g report) s ((executeProposals os root report).run s).steps :=
    follows_report hg
  constructor
  · intro h
    exact chain_labels.mp ((h _ List.prefix_rfl).2.mono fun _ _ _ hx => hx.1)
  · intro h l hprefix
    have hl' := hsteps.prefix hprefix
    have hspares : ∀ x ∈ l, Spares g x.1 := fun x hx => h x (List.IsPrefix.subset hprefix hx)
    have hlands : Chain (fun s e _ => Lands g report s e) s l :=
      (hl'.with (I := fun s => NoLinks s.tree) (fun _ _ _ ha hab => hab.noLinks ha) hl).mono
        fun _ _ _ hab => hab.2.lands hab.1
    exact ⟨conserved_of_spares hl' hl hspares, (chain_labels.mpr hspares).and hlands⟩

/-- In a batch that does not rewrite `README.md`, no backup is made. -/
lemma batchBackupFree_of_no_readme {report : ProposalReport}
    (h : ∀ p ∈ report.proposals, p.action ≠ .readmeWrite) : BatchBackupFree os g report s := by
  intro precheck hprecheck store s₁ _
  have hall : AtEach (executeCheck os g s₁.journal store) (fun _ _ _ => True) precheck.checks 0 {}
      s₁ := AtEach.of_forall fun _ _ _ => trivial
  refine hall.mono fun i check s hcheck _ _ haction => ?_
  unfold precheckProposals at hprecheck
  split at hprecheck
  · cases hprecheck
  · cases hprecheck
    obtain ⟨p, hp, rfl⟩ := List.mem_map.mp hcheck
    rw [precheckProposal_action] at haction
    exact absurd haction (h p hp)

def homeName : Name := ⟨"home", validName_home⟩

/-- A managed root with a `README.md`. -/
def withReadme : Sys := .fresh
  [([homeName], .dir 1), ([homeName, readmeName], .file [1] (some 0) 2)]

/-- The same with a file where the first backup goes. -/
def withBackup : Sys := .fresh
  [([homeName], .dir 1), ([homeName, readmeName], .file [1] (some 0) 2),
    ([homeName, stateName], .dir 3), ([homeName, stateName, backupsName], .dir 4),
    ([homeName, stateName, backupsName, ⟨"op-0-0.bak", by decide⟩], .file [9] (some 0) 5)]

/-- `README.md` is to be rewritten. -/
def rewriteReadme : ProposalReport :=
  ⟨"/home", [{ Proposal.plain .readmeWrite "README.md" "README.md" 1 (some 0) with
    content := some "x" }]⟩

/-- Two files are moved through one another's places. -/
def shuffle : ProposalReport :=
  ⟨"/home", [.plain .move "README.md" "docs/README.md" 1 (some 0),
    .plain .move "docs/README.md" "b" 1 (some 0)]⟩

theorem nothing_lost_sample :
    NothingLost .still (Path.raw [homeName]) shuffle withReadme := by
  have hl : NoLinks withReadme.tree := by decide +kernel
  exact (nothing_lost_iff _ _ _ hl).mpr fun _ _ => batchBackupFree_of_no_readme (by decide)

/-- A batch of one item that rewrites `README.md`. -/
lemma BatchBackupFree.single {report : ProposalReport} {precheck : PrecheckReport}
    (h : BatchBackupFree os g report s) (hp : precheckProposals os g s report = .ok precheck)
    (hc : precheck.checks = [check]) (hstatus : check.status = .ready)
    (haction : check.action = .readmeWrite) (hfrom : check.fromPath = "README.md")
    (hto : check.toPath = "README.md") (hcontent : check.content.isSome)
    (he : Ends (JournalStore.openStore os g.root) s store s') :
    BackupFree g (opId (unixMs os s') 0) s'.tree := by
  have hall := h precheck hp store s' he
  rw [hc] at hall
  exact hall.1 hstatus haction hfrom hto hcontent

/-- Where such a batch meets a file, on a clock that stands still, something is lost. -/
lemma not_nothingLost_single {root : RawPath} {report : ProposalReport} {content : String}
    (hl : NoLinks s.tree) (hg : PathGuard.new s.tree root = .ok g)
    (hc : (precheckProposals .still g s report).toOption.map (·.checks) =
      some [⟨.readmeWrite, "README.md", "README.md", some content, .ready, none⟩])
    (hopen : ((JournalStore.openStore .still g.root).run s).result.isOk = true)
    (hmeets : ¬ BackupFree g (opId 0 0) ((JournalStore.openStore .still g.root).final s).tree) :
    ¬ NothingLost .still root report s := by
  intro h
  have hfree := (executeProposals_spares hl hg).mp (h.spares hg)
  obtain ⟨store, hstore⟩ := isOk_iff.mp hopen
  cases hp : precheckProposals .still g s report with
  | error e =>
    rw [hp] at hc
    cases hc
  | ok precheck =>
    rw [hp] at hc
    exact hmeets (hfree.single hp (Option.some.inj hc) rfl rfl rfl rfl rfl ⟨hstore, rfl⟩)

/-- The guard of the managed root. -/
def homeGuard : PathGuard := ⟨[homeName]⟩

/-- What the samples give, evaluated in one go. -/
lemma withBackup_gives :
    (NoLinks withBackup.tree ∧ withBackup.tree.isDir [homeName] = true ∧
      (precheckProposals .still homeGuard withBackup rewriteReadme).toOption.map (·.checks) =
        some [⟨.readmeWrite, "README.md", "README.md", some "x", .ready, none⟩] ∧
      ((JournalStore.openStore .still homeGuard.root).run withBackup).result.isOk = true) ∧
    let t := ((JournalStore.openStore .still homeGuard.root).final withBackup).tree
    t.existsAt (join homeGuard.root "README.md") = true ∧
      t.isFileAt (join homeGuard.root "README.md") = true ∧
      t.isFileAt (join homeGuard.root (backupRelative (opId 0 0))) = true := by
  decide +kernel

lemma noLinks_withBackup : NoLinks withBackup.tree := withBackup_gives.1.1

lemma new_homeGuard : PathGuard.new withBackup.tree (Path.raw [homeName]) = .ok homeGuard :=
  new_root withBackup_gives.1.2.1

lemma checks_rewriteReadme :
    (precheckProposals .still homeGuard withBackup rewriteReadme).toOption.map (·.checks) =
      some [⟨.readmeWrite, "README.md", "README.md", some "x", .ready, none⟩] :=
  withBackup_gives.1.2.2.1

lemma opens_withBackup :
    ((JournalStore.openStore .still homeGuard.root).run withBackup).result.isOk = true :=
  withBackup_gives.1.2.2.2

lemma meets_withBackup : ¬ BackupFree homeGuard (opId 0 0)
    ((JournalStore.openStore .still homeGuard.root).final withBackup).tree := by
  obtain ⟨-, hreadme, hfile, hmeets⟩ := withBackup_gives
  rw [BackupFree, if_pos hreadme]
  exact fun h => by simp [h hfile] at hmeets

/-- The file that stands where the backup goes is written over. -/
theorem not_nothing_lost : ¬ ∀ (os : Os) (root : RawPath) (report : ProposalReport) (s : Sys),
    NoLinks s.tree → NothingLost os root report s := by
  intro h
  have hlost := h .still (Path.raw [homeName]) rewriteReadme withBackup noLinks_withBackup
  exact not_nothingLost_single noLinks_withBackup new_homeGuard checks_rewriteReadme
    opens_withBackup meets_withBackup hlost

end MouseKeeper.FileEngine
