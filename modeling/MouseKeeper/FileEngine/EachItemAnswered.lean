import MouseKeeper.FileEngine.Steps
import Mathlib.Data.List.Forall2

/-!
No item of a batch blocks the others.

Every executor turns what an earlier item has changed into a reason to skip, but two: trashing
fails if its source is no longer a file, and a move fails if the guard refuses its destination
after the parent has been made.
-/

namespace MouseKeeper.FileEngine

open Posix Trace

/-! ### What a batch is to give -/

/-- A call to the system has failed, or the database could not be opened. -/
def TrashError.CallFailed : TrashError → Prop
  | .journal (.db _) | .metadata _ _ | .createTrashDir _ _ | .writeMetadata _ _ | .move _ _ _ => True
  | _ => False

def ExecuteError.CallFailed : ExecuteError → Prop
  | .journal (.db _) | .createParentDir _ _ | .move _ _ _ | .write _ _ => True
  | .trash e => e.CallFailed
  | _ => False

/-- The result is that of the proposal. -/
def Answers (proposal : Proposal) (r : ExecuteResult) : Prop :=
  r.action = proposal.action ∧ r.fromPath = proposal.fromPath

/-- The source has disappeared, or the target is occupied. -/
def Gone (g : PathGuard) (check : PrecheckResult) (s : Sys) : Prop :=
  ((check.action = .move ∨ check.action = .trash) ∧
      ∃ e, g.resolveExisting s.tree check.fromPath = .error e) ∨
    ((check.action = .move ∨ check.action = .createDir ∨ check.action = .createFile) ∧
      ∃ p, g.resolveForCreate s.tree check.toPath = .ok p ∧ s.tree.existsAt p.raw = true)

/-- An item that was ready and is so no longer is skipped. -/
def SkipsGone (os : Os) (g : PathGuard) (prior : List JournalEntry) (store : JournalStore)
    (i : ℕ) (check : PrecheckResult) (s : Sys) : Prop :=
  ∀ tally tally' s', Ends (executeCheck os g prior store i check tally) s tally' s' →
    check.status = .ready → Gone g check s → tally'.skippedCount = tally.skippedCount + 1

/-- Once the proposals are checked, only a failed call ends the batch without a report; a report
answers every proposal in order; and what is gone is skipped. -/
structure EachAnswered (os : Os) (root : RawPath) (report : ProposalReport) (s : Sys)
    (g : PathGuard) : Prop where
  fails : Fails ExecuteError.CallFailed (executeProposals os root report) s
  answers : ∀ out s', Ends (executeProposals os root report) s out s' →
    List.Forall₂ Answers report.proposals out.results
  skips : ∀ store s₁, Ends (JournalStore.openStore os g.root) s store s₁ →
    AtEach (executeCheck os g s₁.journal store) (SkipsGone os g s₁.journal store)
      (report.proposals.map (precheckProposal os g s)) 0 {} s₁

/-! ### The condition -/

/-- What is made before a file goes to the trash leaves both of its places free. -/
def TrashFree (os : Os) (g : PathGuard) (s : Sys) : Prop :=
  ∀ store s₁, Ends (JournalStore.openStore os g.root) s store s₁ →
    let id := trashId (unixNanos os s₁)
    ∀ d, Ends (Disk.createDirAll os.toKernel (join g.root (trashRelativeDir id))) s₁.toDisk () d →
      (∃ p, trashFree g d.tree (trashedRelativePath id) = .ok p) ∧
        ∃ p, trashFree g d.tree (metadataRelativePath id) = .ok p

/-- The item's turn comes in a state in which it can be carried out or skipped. -/
def Unblocked (os : Os) (g : PathGuard) (check : PrecheckResult) (s : Sys) : Prop :=
  match check.action with
  | .move =>
    (∃ e, g.resolveExisting s.tree check.fromPath = .error e) ∨
      ∃ parent, (join g.root check.toPath).parent = some parent ∧
        ∀ d, Ends (Disk.createDirAll os.toKernel parent) s.toDisk () d →
          ∃ p, g.resolveForCreate d.tree check.toPath = .ok p
  | .trash =>
    (∀ e, trashSource g s.tree check.fromPath = .error e → e.CallFailed) ∧
      ((∃ x, trashSource g s.tree check.fromPath = .ok x) → TrashFree os g s)
  | _ => True

variable {os : Os} {g : PathGuard} {check : PrecheckResult} {s s' : Sys} {store : JournalStore}
  {i : ℕ} {prior : List JournalEntry}

/-! ### How the executors fail -/

lemma fails_append {ε : Type} {C : ε → Prop} {purpose : Purpose} {entry : ℕ → JournalEntry} :
    Fails C (store.append os purpose entry : Engine ε Unit) s := fails_step nofun

/-- A row is written, and the rest is run. -/
lemma fails_append_bind {ε β : Type} {C : ε → Prop} {purpose : Purpose}
    {entry : ℕ → JournalEntry} {f : Unit → Engine ε β} :
    Fails C (store.append os purpose entry >>= f) s ↔
      Fails C (f ()) (JournalStore.appended os entry s) := by
  simp only [fails_bind, fails_append, true_and, JournalStore.ends_append, forall_eq]
  exact ⟨fun h => h (), fun h _ => h⟩

/-- A call is made, and the rest is run. -/
lemma fails_call_bind {ε β : Type} {C : ε → Prop} {k : Errno → ε} (hk : ∀ e, C (k e))
    {purpose : Purpose} {m : DiskProg Unit} {f : Unit → Engine ε β} :
    Fails C (Prog.mapErr k (fs purpose m) >>= f) s ↔
      ∀ d, Ends m s.toDisk () d → Fails C (f ()) { s with toDisk := d } := by
  simp only [fails_bind, fails_mapErr hk, true_and, ends_mapErr, ends_fs]
  constructor
  · exact fun h d hd => h () _ ⟨d, hd, rfl⟩
  · rintro h u _ ⟨d, hd, rfl⟩
    exact h d hd

lemma fails_openStore : Fails (fun e => ∃ x, e = .db x) (JournalStore.openStore os g.root) s := by
  unfold JournalStore.openStore
  refine (fails_call_bind fun _ => ⟨_, rfl⟩).mpr fun d _ => fails_check_bind.mpr ⟨fun e he => ?_,
    fun p _ => fails_bind.mpr ⟨fails_step nofun, fun _ _ _ => fails_pure _⟩⟩
  unfold dbPlace at he
  split at he
  · cases he
    exact ⟨_, rfl⟩
  · split at he
    · cases he
      exact ⟨_, rfl⟩
    · cases he

lemma fails_executeCreateDir :
    Fails ExecuteError.CallFailed (executeCreateDir os g store check i) s := by
  unfold executeCreateDir
  refine fails_read_bind.mpr (fails_append_bind.mpr (fails_read_bind.mpr ?_))
  split
  · exact fails_pure _
  · refine fails_read_bind.mpr ?_
    split
    · exact fails_pure _
    · exact (fails_call_bind fun _ => trivial).mpr fun _ _ =>
        fails_append_bind.mpr (fails_pure _)

lemma fails_executeCreateFile :
    Fails ExecuteError.CallFailed (executeCreateFile os g store check i) s := by
  unfold executeCreateFile
  refine fails_read_bind.mpr (fails_append_bind.mpr ?_)
  split
  · exact fails_pure _
  · refine fails_read_bind.mpr ?_
    split
    · exact fails_pure _
    · refine fails_bind.mpr ⟨fails_attempt, fun r s' _ => ?_⟩
      split
      · exact fails_append_bind.mpr (fails_pure _)
      · refine fails_read_bind.mpr ?_
        split
        · exact fails_pure _
        · exact fails_throw.mpr trivial

lemma fails_backupReadme (ms : ℕ) :
    Fails ExecuteError.CallFailed (backupReadme os g (opId ms i)) s := by
  unfold backupReadme
  simp only [parent_backup g.root (not_slash_opId ms i)]
  refine (fails_call_bind fun _ => trivial).mpr fun _ _ => fails_read_bind.mpr ?_
  split
  · exact fails_mapErr fun _ => trivial
  · exact fails_mapErr fun _ => trivial

lemma fails_executeReadmeWrite :
    Fails ExecuteError.CallFailed (executeReadmeWrite os g store check i) s := by
  unfold executeReadmeWrite
  split
  · exact fails_pure _
  · split
    · exact fails_pure _
    · refine fails_read_bind.mpr (fails_bind.mpr ⟨fails_backupReadme _, fun _ s' _ => ?_⟩)
      refine fails_append_bind.mpr ?_
      refine (fails_call_bind fun _ => trivial).mpr fun _ _ => ?_
      exact fails_append_bind.mpr (fails_pure _)

/-- A move fails otherwise only if the guard refuses its destination. -/
lemma fails_executeMove (haction : check.action = .move) :
    Fails ExecuteError.CallFailed (executeMove os g store check i) s ↔ Unblocked os g check s := by
  unfold executeMove Unblocked
  rw [haction, fails_read_bind, fails_append_bind, fails_read_bind]
  cases hsrc : g.resolveExisting s.tree check.fromPath with
  | error e => simp [hsrc]
  | ok source =>
    simp only [JournalStore.appended_toDisk, hsrc]
    cases hparent : (join g.root check.toPath).parent with
    | none => simp [ExecuteError.CallFailed]
    | some parent =>
      dsimp only
      rw [fails_call_bind fun _ => trivial]
      simp only [JournalStore.appended_toDisk, reduceCtorEq, exists_false, false_or,
        Option.some.injEq, exists_eq_left']
      refine forall₂_congr fun d _ => ?_
      rw [fails_check_bind]
      constructor
      · intro h
        cases hdst : g.resolveForCreate d.tree check.toPath with
        | ok p => exact ⟨p, rfl⟩
        | error e => exact (h.1 (.guard e) (by simp [hdst, Except.mapError])).elim
      · rintro ⟨p, hp⟩
        refine ⟨fun e he => ?_, fun dst _ => fails_read_bind.mpr ?_⟩
        · simp [hp, Except.mapError] at he
        · split
          · exact fails_pure _
          · exact (fails_call_bind fun _ => trivial).mpr fun _ _ =>
              fails_append_bind.mpr (fails_pure _)

lemma fails_trashFree {t : Tree} {relative : String} :
    (∀ e, trashFree g t relative = .error e → e.CallFailed) ↔
      ∃ p, trashFree g t relative = .ok p := by
  cases hfree : trashFree g t relative with
  | ok p => simp
  | error e =>
    simp only [Except.error.injEq, forall_eq', reduceCtorEq, exists_false, iff_false]
    unfold trashFree at hfree
    cases hp : g.resolveForCreate t relative with
    | error e' =>
      rw [hp] at hfree
      cases hfree
      exact id
    | ok p =>
      simp only [hp, Except.mapError, bind, Except.bind] at hfree
      split at hfree
      · cases hfree
        exact id
      · cases hfree

/-- Trashing fails otherwise only if its source is no file or its places are not free. -/
lemma fails_trashFile (hdir : s.tree.isDir g.root = true) :
    Fails TrashError.CallFailed (trashFile os g.root.raw check.fromPath) s ↔
      (∀ e, trashSource g s.tree check.fromPath = .error e → e.CallFailed) ∧
        ((∃ x, trashSource g s.tree check.fromPath = .ok x) → TrashFree os g s) := by
  unfold trashFile
  rw [fails_check_bind]
  simp only [new_root hdir, Except.mapError, reduceCtorEq, false_implies, implies_true, true_and,
    Except.ok.injEq, forall_eq']
  rw [fails_check_bind]
  refine and_congr_right fun _ => ?_
  cases hsrc : trashSource g s.tree check.fromPath with
  | error e => simp
  | ok x =>
    obtain ⟨source, size, modified⟩ := x
    simp only [Except.ok.injEq, forall_eq', exists_eq', true_implies]
    unfold TrashFree
    rw [fails_bind]
    have hopen : Fails TrashError.CallFailed
        (Prog.mapErr TrashError.journal (JournalStore.openStore os g.root)) s :=
      fails_mapErr_iff.mpr (fails_openStore.mono fun e he => he.elim fun _ he => he ▸ trivial)
    simp only [hopen, true_and, ends_mapErr]
    refine forall₃_congr fun store s₁ h₁ => ?_
    rw [fails_read_bind, fails_read_bind, fails_append_bind, fails_call_bind fun _ => trivial]
    simp only [JournalStore.appended_toDisk]
    refine forall₂_congr fun d _ => ?_
    rw [fails_check_bind, fails_trashFree]
    refine and_congr_right fun hfree => ?_
    obtain ⟨p, hp⟩ := hfree
    simp only [hp, Except.ok.injEq, forall_eq']
    rw [fails_check_bind, fails_trashFree]
    refine and_iff_left fun m _ => ?_
    refine (fails_call_bind fun _ => trivial).mpr fun _ _ => ?_
    refine (fails_call_bind fun _ => trivial).mpr fun _ _ => ?_
    exact fails_append_bind.mpr (fails_pure _)

lemma fails_executeReady (hdir : s.tree.isDir g.root = true) :
    Fails ExecuteError.CallFailed (executeReady os g store check i) s ↔ Unblocked os g check s := by
  unfold executeReady
  cases haction : check.action with
  | move => exact fails_executeMove haction
  | trash =>
    dsimp only
    unfold executeTrash Unblocked
    rw [haction, fails_bind]
    refine (and_iff_left fun _ _ _ => fails_pure _).trans ?_
    exact fails_mapErr_iff.trans (fails_trashFile hdir)
  | createDir =>
    unfold Unblocked
    rw [haction]
    exact iff_of_true fails_executeCreateDir trivial
  | createFile =>
    unfold Unblocked
    rw [haction]
    exact iff_of_true fails_executeCreateFile trivial
  | readmeWrite =>
    unfold Unblocked
    rw [haction]
    exact iff_of_true fails_executeReadmeWrite trivial

lemma fails_recoverPlannedMove :
    Fails ExecuteError.CallFailed (recoverPlannedMove os g prior store check) s := by
  unfold recoverPlannedMove
  split
  · exact fails_pure _
  · split
    · exact fails_pure _
    · refine fails_read_bind.mpr ?_
      split
      · exact fails_append_bind.mpr (fails_pure _)
      · exact fails_pure _

lemma fails_executeCheck {tally : Tally} (hdir : s.tree.isDir g.root = true) :
    Fails ExecuteError.CallFailed (executeCheck os g prior store i check tally) s ↔
      (check.status = .ready → Unblocked os g check s) := by
  unfold executeCheck
  by_cases hready : check.status = .ready
  · rw [if_neg (not_not.mpr hready), fails_bind]
    refine (and_iff_left fun r s' _ => ?_).trans ((fails_executeReady hdir).trans ?_)
    · cases r <;> exact fails_pure _
    · exact ⟨fun h _ => h, fun h => h hready⟩
  · rw [if_pos hready]
    refine iff_of_true (fails_bind.mpr ⟨fails_recoverPlannedMove, fun r s' _ => ?_⟩)
      fun h => absurd h hready
    cases r <;> exact fails_pure _

/-! ### What the results are -/

/-- The result is that of the check. -/
def IsOf (check : PrecheckResult) (r : ExecuteResult) : Prop :=
  r.action = check.action ∧ r.fromPath = check.fromPath

/-- What has been carried out is journaled last. -/
lemma isOf_row {purpose : Purpose} {entry : ℕ → JournalEntry} {r r' : ExecuteResult}
    (h : Ends (do store.append os purpose entry; pure (.ok r') : Engine ExecuteError ItemResult) s
      (.ok r) s') (hr : IsOf check r') : IsOf check r := by
  obtain ⟨_, _, -, h⟩ := ends_bind.mp h
  cases (ends_pure.mp h).1
  exact hr

lemma isOf_executeReady {r : ExecuteResult}
    (h : Ends (executeReady os g store check i) s (.ok r) s') : IsOf check r := by
  unfold executeReady at h
  split at h
  · unfold executeMove at h
    obtain ⟨_, _, -, h⟩ := ends_bind.mp h
    obtain ⟨_, _, -, h⟩ := ends_bind.mp h
    obtain ⟨_, _, hread, h⟩ := ends_bind.mp h
    split at h
    · cases (ends_pure.mp h).1
    · dsimp only at h
      split at h
      · exact absurd h ends_throw
      · obtain ⟨_, _, -, h⟩ := ends_bind.mp h
        obtain ⟨_, _, -, h⟩ := ends_bind.mp h
        obtain ⟨_, _, -, h⟩ := ends_bind.mp h
        split at h
        · cases (ends_pure.mp h).1
        · obtain ⟨_, _, -, h⟩ := ends_bind.mp h
          exact isOf_row h ⟨rfl, rfl⟩
  · obtain ⟨_, _, -, h⟩ := ends_bind.mp h
    cases (ends_pure.mp h).1
    exact ⟨rfl, rfl⟩
  · unfold executeCreateDir at h
    obtain ⟨_, _, -, h⟩ := ends_bind.mp h
    obtain ⟨_, _, -, h⟩ := ends_bind.mp h
    obtain ⟨_, _, -, h⟩ := ends_bind.mp h
    split at h
    · cases (ends_pure.mp h).1
    · obtain ⟨_, _, -, h⟩ := ends_bind.mp h
      split at h
      · cases (ends_pure.mp h).1
      · obtain ⟨_, _, -, h⟩ := ends_bind.mp h
        exact isOf_row h ⟨rfl, rfl⟩
  · unfold executeCreateFile at h
    obtain ⟨_, _, -, h⟩ := ends_bind.mp h
    obtain ⟨_, _, -, h⟩ := ends_bind.mp h
    split at h
    · cases (ends_pure.mp h).1
    · obtain ⟨_, _, -, h⟩ := ends_bind.mp h
      split at h
      · cases (ends_pure.mp h).1
      · obtain ⟨_, _, -, h⟩ := ends_bind.mp h
        split at h
        · exact isOf_row h ⟨rfl, rfl⟩
        · obtain ⟨_, _, -, h⟩ := ends_bind.mp h
          split at h
          · cases (ends_pure.mp h).1
          · exact absurd h ends_throw
  · unfold executeReadmeWrite at h
    split at h
    · cases (ends_pure.mp h).1
    · next hpaths =>
      split at h
      · cases (ends_pure.mp h).1
      · obtain ⟨_, _, -, h⟩ := ends_bind.mp h
        obtain ⟨_, _, -, h⟩ := ends_bind.mp h
        obtain ⟨_, _, -, h⟩ := ends_bind.mp h
        obtain ⟨_, _, -, h⟩ := ends_bind.mp h
        rw [not_or, not_not, not_not] at hpaths
        exact isOf_row h ⟨rfl, hpaths.1.symm⟩

/-- One result for the check, and no other changes of the tally but its counters. -/
lemma result_of_executeCheck {tally tally' : Tally}
    (h : Ends (executeCheck os g prior store i check tally) s tally' s') :
    ∃ r, tally'.results = tally.results ++ [r] ∧ IsOf check r := by
  unfold executeCheck at h
  split at h
  · obtain ⟨r, _, hrecover, h⟩ := ends_bind.mp h
    cases r with
    | none =>
      obtain ⟨rfl, -⟩ := ends_pure.mp h
      exact ⟨_, rfl, rfl, rfl⟩
    | some r =>
      obtain ⟨rfl, -⟩ := ends_pure.mp h
      refine ⟨r, rfl, ?_⟩
      unfold recoverPlannedMove at hrecover
      split at hrecover
      · cases (ends_pure.mp hrecover).1
      · split at hrecover
        · cases (ends_pure.mp hrecover).1
        · obtain ⟨_, _, -, hrecover⟩ := ends_bind.mp hrecover
          split at hrecover
          · obtain ⟨_, _, -, hrecover⟩ := ends_bind.mp hrecover
            cases (ends_pure.mp hrecover).1
            exact ⟨rfl, rfl⟩
          · cases (ends_pure.mp hrecover).1
  · obtain ⟨r, _, hready, h⟩ := ends_bind.mp h
    cases r with
    | error reason =>
      obtain ⟨rfl, -⟩ := ends_pure.mp h
      exact ⟨_, rfl, rfl, rfl⟩
    | ok r =>
      obtain ⟨rfl, -⟩ := ends_pure.mp h
      exact ⟨r, rfl, isOf_executeReady hready⟩

lemma results_of_loop {checks : List PrecheckResult} {tally tally' : Tally}
    (h : Ends (Prog.loop (executeCheck os g prior store) checks i tally) s tally' s') :
    ∃ rs, tally'.results = tally.results ++ rs ∧ List.Forall₂ IsOf checks rs := by
  induction checks generalizing i tally s with
  | nil =>
    obtain ⟨rfl, -⟩ := ends_pure.mp h
    exact ⟨[], (List.append_nil _).symm, .nil⟩
  | cons check checks ih =>
    obtain ⟨tally₁, s₁, h₁, h⟩ := ends_bind.mp h
    obtain ⟨r, hr, hof⟩ := result_of_executeCheck h₁
    obtain ⟨rs, hrs, hall⟩ := ih h
    refine ⟨r :: rs, ?_, .cons hof hall⟩
    rw [hrs, hr, List.append_assoc]
    rfl

/-! ### What is gone is skipped -/

/-- No file is created where something is. -/
lemma not_createNew {t : Tree} {p : Path} (hp : ∃ r n, p = r ++ [n] ∧ t.Solid r)
    (hx : t.existsAt p.raw = true) (mtime : Option ℕ) (ino : ℕ) :
    ∃ e, t.createNew p.raw mtime ino = .error e := by
  obtain ⟨r, n, rfl, hr⟩ := hp
  cases h : t.createNew (Path.raw (r ++ [n])) mtime ino with
  | error e => exact ⟨e, rfl⟩
  | ok x =>
    obtain ⟨c, t'⟩ := x
    obtain ⟨hd, -, hn, -⟩ := Tree.createNew_under hr h
    obtain ⟨q, hq⟩ := Tree.existsAt_iff.mp hx
    rw [raw_snoc, Tree.realpath_free (Tree.realpath_raw_dir hd) hd hn] at hq
    cases hq

/-- An item that is gone is not carried out. -/
lemma not_ends_gone {r : ExecuteResult} (hdir : s.tree.isDir g.root = true) (hgone : Gone g check s) :
    ¬ Ends (executeReady os g store check i) s (.ok r) s' := by
  intro h
  unfold executeReady at h
  split at h
  · next haction =>
    unfold executeMove at h
    obtain ⟨_, _, hread, h⟩ := ends_bind.mp h
    obtain ⟨rfl, rfl⟩ := ends_read.mp hread
    obtain ⟨_, _, happend, h⟩ := ends_bind.mp h
    cases JournalStore.ends_append.mp happend
    obtain ⟨_, _, hread, h⟩ := ends_bind.mp h
    obtain ⟨rfl, rfl⟩ := ends_read.mp hread
    split at h
    · cases (ends_pure.mp h).1
    · next source hsrc =>
      dsimp only at h
      split at h
      · exact ends_throw h
      · obtain ⟨_, _, hmade, h⟩ := ends_bind.mp h
        rw [ends_mapErr, ends_fs] at hmade
        obtain ⟨d, hd, rfl⟩ := hmade
        obtain ⟨dst, _, hcheck, h⟩ := ends_bind.mp h
        obtain ⟨hdst, rfl⟩ := ends_check.mp hcheck
        obtain ⟨_, _, hread, h⟩ := ends_bind.mp h
        obtain ⟨rfl, rfl⟩ := ends_read.mp hread
        rcases hgone with ⟨-, e, he⟩ | ⟨-, p, hp, hx⟩
        · rw [JournalStore.appended_toDisk, he] at hsrc
          cases hsrc
        · have hg := Disk.grown_of_ends hd
          have hp' := resolveForCreate_grown hg hp
          rw [mapError_eq_ok, hp'] at hdst
          cases hdst
          rw [existsAt_grown hg hx] at h
          cases (ends_pure.mp h).1
  · next haction =>
    obtain ⟨_, _, htrash, h⟩ := ends_bind.mp h
    rw [ends_mapErr] at htrash
    unfold trashFile at htrash
    obtain ⟨g', _, hnew, htrash⟩ := ends_bind.mp htrash
    obtain ⟨hnew, rfl⟩ := ends_check.mp hnew
    rw [new_root hdir] at hnew
    cases hnew
    obtain ⟨x, _, hsrc, -⟩ := ends_bind.mp htrash
    obtain ⟨hsrc, -⟩ := ends_check.mp hsrc
    obtain ⟨source, size, modified⟩ := x
    rcases hgone with ⟨-, e, he⟩ | ⟨hkind, -⟩
    · rw [(trashSource_ok hsrc).1] at he
      cases he
    · rw [haction] at hkind
      simp at hkind
  · next haction =>
    unfold executeCreateDir at h
    obtain ⟨_, _, hread, h⟩ := ends_bind.mp h
    obtain ⟨rfl, rfl⟩ := ends_read.mp hread
    obtain ⟨_, _, happend, h⟩ := ends_bind.mp h
    cases JournalStore.ends_append.mp happend
    obtain ⟨_, _, hread, h⟩ := ends_bind.mp h
    obtain ⟨rfl, rfl⟩ := ends_read.mp hread
    rcases hgone with ⟨hkind, -⟩ | ⟨-, p, hp, hx⟩
    · rw [haction] at hkind
      simp at hkind
    · rw [JournalStore.appended_toDisk, hp] at h
      obtain ⟨_, _, hread, h⟩ := ends_bind.mp h
      obtain ⟨rfl, rfl⟩ := ends_read.mp hread
      rw [JournalStore.appended_toDisk, hx] at h
      cases (ends_pure.mp h).1
  · next haction =>
    unfold executeCreateFile at h
    obtain ⟨_, s₁, hread, h⟩ := ends_bind.mp h
    obtain ⟨rfl, rfl⟩ := ends_read.mp hread
    obtain ⟨_, _, happend, h⟩ := ends_bind.mp h
    cases JournalStore.ends_append.mp happend
    split at h
    · cases (ends_pure.mp h).1
    · obtain ⟨_, _, hread, h⟩ := ends_bind.mp h
      obtain ⟨rfl, rfl⟩ := ends_read.mp hread
      rcases hgone with ⟨hkind, -⟩ | ⟨-, p, hp, hx⟩
      · rw [haction] at hkind
        simp at hkind
      · rw [JournalStore.appended_toDisk, hp] at h
        obtain ⟨e, he⟩ := not_createNew (PathGuard.resolveForCreate_under hp) hx
          (os.mtime s₁.tick) (os.ino s₁.tick)
        obtain ⟨a, s₂, hattempt, h⟩ := ends_bind.mp h
        obtain ⟨rfl, -⟩ := ends_attempt.mp hattempt
        have hres : ((fs (.target .createFile (opId (unixMs os s₁) i))
            (Disk.createNew os.toKernel p.raw)).run
              (JournalStore.appended os (journalEntry (opId (unixMs os s₁) i) .planned check)
                s₁)).result = .error e := by
          rw [run_fs, Disk.createNew, Disk.run_call_error he]
        rw [hres] at h
        obtain ⟨_, _, -, h⟩ := ends_bind.mp h
        split at h
        · cases (ends_pure.mp h).1
        · exact ends_throw h
  · next haction =>
    rcases hgone with ⟨hkind, -⟩ | ⟨hkind, -⟩ <;>
    · rw [haction] at hkind
      simp at hkind

/-! ### The batch -/

lemma isDir_executeCheck {tally tally' : Tally}
    (h : Ends (executeCheck os g prior store i check tally) s tally' s')
    (hdir : s.tree.isDir g.root = true) : s'.tree.isDir g.root = true :=
  (rootKept_of_ends check follows_executeCheck h hdir).1

lemma skipsGone (hdir : s.tree.isDir g.root = true) : SkipsGone os g prior store i check s := by
  intro tally tally' s' h hready hgone
  unfold executeCheck at h
  rw [if_neg (not_not.mpr hready)] at h
  obtain ⟨r, _, hr, h⟩ := ends_bind.mp h
  cases r with
  | ok r => exact absurd hr (not_ends_gone hdir hgone)
  | error reason =>
    obtain ⟨rfl, -⟩ := ends_pure.mp h
    rfl

lemma answers_of_isOf {l : List Proposal} {rs : List ExecuteResult}
    (h : List.Forall₂ IsOf (l.map (precheckProposal os g s)) rs) :
    List.Forall₂ Answers l rs := by
  rw [List.forall₂_map_left_iff] at h
  refine h.imp fun proposal r hr => ?_
  obtain ⟨_, _, hc⟩ := checks_precheckProposal os g s proposal
  rw [hc] at hr
  exact hr

/-- **No item blocks the others**, if each can be carried out or skipped when its turn comes. -/
theorem each_answered (os : Os) (root : RawPath) (report : ProposalReport) (s : Sys) :
    (∀ g, PathGuard.new s.tree root = .ok g → report.root = g.root.display →
      EachAnswered os root report s g) ↔
    ∀ g, PathGuard.new s.tree root = .ok g → report.root = g.root.display →
      ∀ store s₁, Ends (JournalStore.openStore os g.root) s store s₁ →
        AtEach (executeCheck os g s₁.journal store)
          (fun _ check s => check.status = .ready → Unblocked os g check s)
          (report.proposals.map (precheckProposal os g s)) 0 {} s₁ := by
  refine forall₃_congr fun g hg hroot => ?_
  have hpre : precheckProposals os g s report =
      .ok ⟨report.root, report.proposals.map (precheckProposal os g s)⟩ := if_neg (not_not.mpr hroot)
  have hkeep : ∀ {store s₁}, Ends (JournalStore.openStore os g.root) s store s₁ →
      s₁.tree.isDir g.root = true := fun hopen =>
    (JournalStore.grown_openStore hopen).isDir (new_ok hg).2
  have hfails : Fails ExecuteError.CallFailed (executeProposals os root report) s ↔
      ∀ store s₁, Ends (JournalStore.openStore os g.root) s store s₁ →
        AtEach (executeCheck os g s₁.journal store)
          (fun _ check s => check.status = .ready → Unblocked os g check s)
          (report.proposals.map (precheckProposal os g s)) 0 {} s₁ := by
    unfold executeProposals executePrechecked
    rw [fails_check_bind]
    simp only [hg, Except.mapError, reduceCtorEq, false_implies, implies_true, true_and,
      Except.ok.injEq, forall_eq']
    rw [fails_check_bind]
    simp only [hpre, reduceCtorEq, false_implies, implies_true, true_and, Except.ok.injEq,
      forall_eq']
    rw [fails_bind]
    have hopen : Fails ExecuteError.CallFailed
        (Prog.mapErr ExecuteError.journal (JournalStore.openStore os g.root)) s :=
      fails_mapErr_iff.mpr (fails_openStore.mono fun e ⟨_, he⟩ => he ▸ trivial)
    simp only [hopen, true_and, ends_mapErr]
    refine forall₃_congr fun store s₁ h₁ => ?_
    unfold JournalStore.readAll
    rw [fails_read_bind, fails_bind]
    refine (and_iff_left fun _ _ _ => fails_pure _).trans ?_
    exact fails_loop (I := fun s => s.tree.isDir g.root = true) (hkeep h₁)
      (fun i check tally s _ hdir => fails_executeCheck hdir)
      fun _ _ _ _ _ _ _ hdir h => isDir_executeCheck h hdir
  constructor
  · exact fun h => hfails.mp h.fails
  · intro h
    refine ⟨hfails.mpr h, fun out s' hends => ?_, fun store s₁ hopen => ?_⟩
    · unfold executeProposals executePrechecked at hends
      obtain ⟨g', _, hg', hends⟩ := ends_bind.mp hends
      obtain ⟨hg', rfl⟩ := ends_check.mp hg'
      rw [mapError_eq_ok, hg] at hg'
      cases hg'
      obtain ⟨precheck, _, hpre', hends⟩ := ends_bind.mp hends
      obtain ⟨hpre', rfl⟩ := ends_check.mp hpre'
      rw [mapError_eq_ok, hpre] at hpre'
      cases hpre'
      obtain ⟨_, _, -, hends⟩ := ends_bind.mp hends
      obtain ⟨_, _, -, hends⟩ := ends_bind.mp hends
      obtain ⟨_, _, hloop, hends⟩ := ends_bind.mp hends
      obtain ⟨rfl, -⟩ := ends_pure.mp hends
      obtain ⟨rs, hrs, hall⟩ := results_of_loop hloop
      rw [List.nil_append] at hrs
      exact answers_of_isOf (hrs ▸ hall)
    · exact .of_inv (I := fun s => s.tree.isDir g.root = true) (hkeep hopen)
        (fun _ _ _ _ hdir => skipsGone hdir)
        fun _ _ _ _ _ _ _ hdir h => isDir_executeCheck h hdir

/-! ### Samples -/

def inboxName : Name := ⟨"inbox", validName_inbox⟩

def noteName : Name := ⟨"a", validName_a⟩

/-- One file in the managed root. -/
def oneNote : Sys := .fresh [([inboxName], .dir 1), ([inboxName, noteName], .file [] (some 0) 2)]

def trashTwice : ProposalReport :=
  ⟨"/inbox", List.replicate 2 (.plain .trash "a" TRASH_DIR 0 (some 0))⟩

/-- The second item finds its file gone, and ends the batch. -/
theorem not_each_answered : ¬ ∀ g, PathGuard.new oneNote.tree (Path.raw [inboxName]) = .ok g →
    trashTwice.root = g.root.display →
      EachAnswered .still (Path.raw [inboxName]) trashTwice oneNote g := by
  intro h
  have hg : PathGuard.new oneNote.tree (Path.raw [inboxName]) = .ok ⟨[inboxName]⟩ :=
    new_root (by decide +kernel)
  have hfails := (h _ hg (by decide +kernel)).fails
  have hblocked : ((executeProposals .still (Path.raw [inboxName]) trashTwice).run oneNote).result =
      .error (.trash (.guard (.missingPath (Path.raw [inboxName, noteName])))) := by
    decide +kernel
  exact hfails _ hblocked

end MouseKeeper.FileEngine
