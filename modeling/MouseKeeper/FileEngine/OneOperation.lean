import MouseKeeper.FileEngine.NoLoss
import MouseKeeper.FileEngine.OperationIds
import MouseKeeper.Machine

/-!
An undo touches its own operation only.

The calls on a managed root follow one another, each with a clock of its own; a call may be cut
off at any step, and the tree may be changed from outside between two calls. As long as the names
that are taken from the clock are new, each names one operation.
-/

namespace MouseKeeper.FileEngine

open Posix Trace Machine

/-! ### Plans without execution -/

structure JournalWriteReport where
  root : String
  journalPath : String
  plannedCount : ℕ
  skippedCount : ℕ
  deriving DecidableEq

def plannedRow (createdUnixMs index : ℕ) (check : PrecheckResult) : JournalEntry where
  operationId := opId createdUnixMs index
  status := .planned
  action := .move
  fromPath := check.fromPath
  toPath := check.toPath
  createdUnixMs := createdUnixMs

/-- The loop's body. -/
def writePlan (os : Os) (store : JournalStore) (createdUnixMs index : ℕ) (check : PrecheckResult)
    (counts : ℕ × ℕ) : Engine JournalError (ℕ × ℕ) := do
  if check.status ≠ .ready then pure (counts.1, counts.2 + 1)
  else do
    store.append os .row fun _ => plannedRow createdUnixMs index check
    pure (counts.1 + 1, counts.2)

/-- `write_planned_journal`, the proposals of the root being checked already. -/
def writePlannedJournal (os : Os) (root : RawPath) (precheck : PrecheckReport) :
    Engine JournalError JournalWriteReport := do
  let g ← Prog.check fun s => (PathGuard.new s.tree root).mapError .guard
  let store ← JournalStore.openStore os g.root
  let createdUnixMs ← Prog.read (unixMs os)
  let counts ← Prog.loop (writePlan os store createdUnixMs) precheck.checks 0 (0, 0)
  pure
    { root := precheck.root, journalPath := store.journalPathDisplay, plannedCount := counts.1,
      skippedCount := counts.2 }

/-! ### Calls -/

inductive Call
  | execute (root : RawPath) (report : ProposalReport)
  | undo (root : RawPath) (only : Option String)
  | plan (root : RawPath) (precheck : PrecheckReport)

def Call.steps (os : Os) (s : Sys) : Call → List (Effect × Sys)
  | .execute root report => ((executeProposals os root report).run s).steps
  | .undo root only => ((undoWithFilter os root only).run s).steps
  | .plan root precheck => ((writePlannedJournal os root precheck).run s).steps

/-- A call is cut off after `cut` steps, if it takes as many. -/
inductive Event
  | call (os : Os) (c : Call) (cut : ℕ)
  | outside (tree : Tree)

/-- A managed root, and what has been done to it by calls. -/
structure Managed where
  sys : Sys
  done : List Effect

def Managed.step (h : Managed) : Event → Option Managed
  | .call os c cut =>
    let l := (c.steps os h.sys).take cut
    some ⟨after h.sys l, h.done ++ l.map (·.1)⟩
  | .outside tree => some { h with sys := { h.sys with tree } }

def Managed.kept (h : Managed) : List String := h.done.filterMap keptId

/-- The names that a call takes from the clock are new. -/
def Managed.New (h : Managed) : Event → Prop
  | .call os (.execute root report) _ => BatchNew os h.kept root report h.sys
  | .call os (.plan root precheck) _ => ∀ g store s₁, PathGuard.new h.sys.tree root = .ok g →
      Ends (JournalStore.openStore os g.root) h.sys store s₁ →
      AtEach (writePlan os store (unixMs os s₁)) (fun i check s => check.status = .ready →
        opId (unixMs os s₁) i ∉ journalIds s.journal) precheck.checks 0 (0, 0) s₁
  | _ => True

/-! ### What is promised -/

/-- Where a step keeps a file for an undo. -/
def keptPath (e : Effect) : Option String :=
  match e.purpose with
  | .backup id => some (backupRelative id)
  | .absent id => some (absentRelative id)
  | .target .trash id => some (trashedRelativePath id)
  | _ => none

/-- Every operation has its own name, backup and place in the trash, and an undo by name goes by
the one row of the operation that the history shows under it. -/
structure Apart (h : Managed) : Prop where
  executed : (executedIds h.sys.journal).Nodup
  kept : (h.done.filterMap keptPath).Nodup
  shown : ∀ os root report s', Ends (readOperationHistory os root) h.sys report s' →
    (report.operations.map (·.operationId)).Nodup ∧
      ∀ id, ∀ e ∈ undoable h.sys.journal (some id), ∃ o ∈ report.operations, o.about = e.about
  one : ∀ id, ∀ e ∈ undoable h.sys.journal (some id), undoable h.sys.journal (some id) = [e]
  touched : ∀ os root id, Emits (fun e => e.purpose = .store ∨
    ∃ entry ∈ undoable h.sys.journal (some id), UndoStep entry e) (undoOperation os root id) h.sys

variable {os : Os} {g : PathGuard} {store : JournalStore} {s : Sys} {h h' : Managed}
variable {root : RawPath}

/-! ### The plans of a call -/

lemma writePlan_rows {checks : List PrecheckResult} {i ms : ℕ} {counts : ℕ × ℕ}
    (hnew : AtEach (writePlan os store ms) (fun i check s => check.status = .ready →
      opId ms i ∉ journalIds s.journal) checks i counts s) :
    Follows RowStep (Prog.loop (writePlan os store ms) checks i counts) s := by
  refine follows_loop (I := fun _ => True) trivial hnew (fun i check counts s _ _ hnew => ?_)
    fun _ _ _ _ _ => trivial
  unfold writePlan
  refine follows_ite (fun _ => follows_pure _) fun hstatus => ?_
  exact follows_bind (rows_append (hnew (not_not.mp hstatus))) fun _ _ _ => follows_pure _

lemma writePlan_unkept {checks : List PrecheckResult} {i ms : ℕ} {counts : ℕ × ℕ} :
    Emits (fun e => keptId e = none) (Prog.loop (writePlan os store ms) checks i counts) s := by
  refine (emits_loop (I := fun _ => True) (Q := fun _ _ _ => True) trivial
    (fun i check counts s _ _ => iff_of_true ?_ trivial) fun _ _ _ _ _ _ _ _ _ => trivial).mpr
    (AtEach.of_forall fun _ _ _ => trivial)
  unfold writePlan
  split
  · exact emits_pure _
  · exact emits_bind.mpr ⟨unkept_append fun _ => rfl, fun _ _ _ => emits_pure _⟩

/-! ### One call -/

/-- The steps of a call add admitted rows, and keep files under new names only. -/
lemma call_steps {c : Call} {cut : ℕ} (hnew : h.New (.call os c cut)) :
    Chain RowStep h.sys (c.steps os h.sys) ∧
      (((c.steps os h.sys).filterMap fun x => keptId x.1).Nodup ∧
        ∀ id ∈ (c.steps os h.sys).filterMap fun x => keptId x.1, id ∉ h.kept) := by
  cases c with
  | execute root report =>
    have hfresh := fresh_executeProposals hnew
    exact ⟨rows_executeProposals hnew, hfresh.nodup, fun id hid hu => hfresh.new id hid (.inr hu)⟩
  | undo root only =>
    have hrows : Follows (UndoAny (undoable h.sys.journal only)) (undoWithFilter os root only)
        h.sys := follows_undoWithFilter
    have hunkept : Follows (fun _ e _ => keptId e = none) (undoWithFilter os root only) h.sys := by
      refine hrows.mono fun _ e _ hs => ?_
      rcases hs.2 with he | ⟨entry, -, hu⟩
      · simp [keptId, he]
      · exact hu.unkept
    have hnone : Emits (fun e => keptId e = none) (undoWithFilter os root only) h.sys :=
      chain_labels.mp hunkept
    have hkeys : (Call.steps os h.sys (.undo root only)).filterMap (fun x => keptId x.1) = [] :=
      keys_eq_nil hnone
    refine ⟨hrows.mono fun _ _ _ hs => hs.1, ?_⟩
    rw [hkeys]
    exact ⟨.nil, fun _ hm => absurd hm List.not_mem_nil⟩
  | plan root precheck =>
    have hrows : Follows RowStep (writePlannedJournal os root precheck) h.sys := by
      unfold writePlannedJournal
      refine follows_check_bind fun g hg => follows_bind rows_openStore fun store s₁ h₁ =>
        follows_read_bind (follows_bind ?_ fun _ _ _ => follows_pure _)
      exact writePlan_rows (hnew g store s₁ (mapError_eq_ok.mp hg) h₁)
    have hnone : Emits (fun e => keptId e = none) (writePlannedJournal os root precheck) h.sys := by
      unfold writePlannedJournal
      refine emits_check_bind.mpr fun g _ => emits_bind.mpr ⟨unkept_openStore, fun _ _ _ =>
        emits_read_bind.mpr (emits_bind.mpr ⟨writePlan_unkept, fun _ _ _ => emits_pure _⟩)⟩
    have hkeys : (Call.steps os h.sys (.plan root precheck)).filterMap (fun x => keptId x.1) = [] :=
      keys_eq_nil hnone
    refine ⟨hrows, ?_⟩
    rw [hkeys]
    exact ⟨.nil, fun _ hm => absurd hm List.not_mem_nil⟩

/-- What is true between calls. -/
structure Managed.Sound (h : Managed) : Prop where
  admitted : Admitted h.sys.journal
  kept : h.kept.Nodup

lemma Managed.Sound.step {e : Event} (hs : h.Sound) (hnew : h.New e) (he : h.step e = some h') :
    h'.Sound := by
  cases e with
  | outside tree =>
    cases he
    exact ⟨hs.admitted, hs.kept⟩
  | call os c cut =>
    obtain ⟨hrows, hnodup, hapart⟩ := call_steps hnew
    cases he
    have hcut : (c.steps os h.sys).take cut <+: c.steps os h.sys := List.take_prefix _ _
    have hdone : Chain RowStep h.sys ((c.steps os h.sys).take cut) := hrows.prefix hcut
    refine ⟨hdone.keeps (I := fun s => Admitted s.journal)
      (fun _ _ _ ha hab => hab.admitted ha) hs.admitted, ?_⟩
    have hsub := (hcut.sublist.filterMap fun x => keptId x.1)
    have hnew : (List.map (·.1) ((c.steps os h.sys).take cut)).filterMap keptId =
        ((c.steps os h.sys).take cut).filterMap fun x => keptId x.1 := by
      rw [List.filterMap_map]
      rfl
    unfold Managed.kept
    rw [List.filterMap_append, hnew]
    exact List.Nodup.append hs.kept (hnodup.sublist hsub) fun id h₁ h₂ =>
      hapart id (hsub.subset h₂) h₁

/-! ### Names and paths -/

lemma between_inj {a b x y : String} (h : a ++ x ++ b = a ++ y ++ b) : x = y := by
  have h := congrArg String.toList h
  simp only [String.toList_append, List.append_cancel_right_eq, List.append_cancel_left_eq] at h
  exact String.toList_inj.mp h

/-- Texts that start with different letters at a place where both have one, or end so. -/
lemma starts_ne {a b x y : String} (n : ℕ) (ha : n ≤ a.toList.length) (hb : n ≤ b.toList.length)
    (h : a.toList.take n ≠ b.toList.take n) : a ++ x ≠ b ++ y := by
  intro he
  have he := congrArg (fun s => s.toList.take n) he
  simp only [String.toList_append, List.take_append_of_le_length ha,
    List.take_append_of_le_length hb] at he
  exact h he

lemma ends_ne {a b x y : String} {c d : Char} (ha : a.toList.getLast? = some c)
    (hb : b.toList.getLast? = some d) (h : c ≠ d) : x ++ a ≠ y ++ b := by
  intro he
  have he := congrArg (fun s => s.toList.getLast?) he
  simp only [String.toList_append, List.getLast?_append, ha, hb, Option.some_or] at he
  exact h (Option.some.inj he)

lemma backup_ne_trashed {id id' : String} : backupRelative id ≠ trashedRelativePath id' := by
  unfold backupRelative trashedRelativePath trashRelativeDir TRASH_DIR
  simp only [String.append_assoc]
  exact starts_ne 13 (by decide) (by decide) (by decide)

lemma absent_ne_trashed {id id' : String} : absentRelative id ≠ trashedRelativePath id' := by
  unfold absentRelative trashedRelativePath trashRelativeDir TRASH_DIR
  simp only [String.append_assoc]
  exact starts_ne 13 (by decide) (by decide) (by decide)

lemma backup_ne_absent {id id' : String} : backupRelative id ≠ absentRelative id' :=
  ends_ne (c := 'k') (d := 't') (by decide) (by decide) (by decide)

lemma trashedRelativePath_inj {id id' : String}
    (h : trashedRelativePath id = trashedRelativePath id') : id = id' := by
  have h : TRASH_DIR ++ "/" ++ id ++ ("/" ++ TRASHED_FILE_NAME) =
      TRASH_DIR ++ "/" ++ id' ++ ("/" ++ TRASHED_FILE_NAME) := by
    simpa only [trashedRelativePath, trashRelativeDir, String.append_assoc] using h
  exact between_inj h

lemma keptPath_some {e : Effect} {p : String} (h : keptPath e = some p) : ∃ id, keptId e = some id ∧
    (p = backupRelative id ∨ p = absentRelative id ∨ p = trashedRelativePath id) := by
  unfold keptPath at h
  split at h
  · next id hp => exact ⟨id, by simp [keptId, hp], .inl (Option.some.inj h).symm⟩
  · next id hp => exact ⟨id, by simp [keptId, hp], .inr (.inl (Option.some.inj h).symm)⟩
  · next id hp => exact ⟨id, by simp [keptId, hp], .inr (.inr (Option.some.inj h).symm)⟩
  · cases h

/-- One path is of one operation. -/
lemma keptId_of_path {e e' : Effect} {p : String} (h : keptPath e = some p)
    (h' : keptPath e' = some p) : ∃ id, keptId e = some id ∧ keptId e' = some id := by
  obtain ⟨id, hid, hp⟩ := keptPath_some h
  obtain ⟨id', hid', hp'⟩ := keptPath_some h'
  have he : id = id' := by
    rcases hp with rfl | rfl | rfl
    · rcases hp' with hp' | hp' | hp'
      · exact between_inj hp'
      · exact absurd hp' backup_ne_absent
      · exact absurd hp' backup_ne_trashed
    · rcases hp' with hp' | hp' | hp'
      · exact absurd hp'.symm backup_ne_absent
      · exact between_inj hp'
      · exact absurd hp' absent_ne_trashed
    · rcases hp' with hp' | hp' | hp'
      · exact absurd hp'.symm backup_ne_trashed
      · exact absurd hp'.symm absent_ne_trashed
      · exact trashedRelativePath_inj hp'
  exact ⟨id, hid, he ▸ hid'⟩

lemma kept_paths_nodup {l : List Effect} (h : (l.filterMap keptId).Nodup) :
    (l.filterMap keptPath).Nodup := by
  unfold List.Nodup at h ⊢
  rw [List.pairwise_filterMap] at h ⊢
  refine h.imp fun {e e'} hne p hp p' hp' he => ?_
  subst he
  obtain ⟨id, hid, hid'⟩ := keptId_of_path hp hp'
  exact hne id hid id hid' rfl

/-! ### Runs -/

lemma history_of_ends {report : OperationHistoryReport} {s' : Sys}
    (h : Ends (readOperationHistory os root) s report s') : ∃ s₁ g,
      report.operations = shownOperations os s₁ g s.journal := by
  unfold readOperationHistory at h
  obtain ⟨g, s₀, hg, hread⟩ := ends_bind.mp h
  obtain ⟨-, rfl⟩ := ends_check.mp hg
  obtain ⟨store, s₁, h₁, hentries⟩ := ends_bind.mp hread
  have hj := journal_of_openStore h₁
  obtain ⟨entries, s₂, h₂, hshown⟩ := ends_bind.mp hentries
  obtain ⟨rfl, rfl⟩ := ends_read.mp h₂
  obtain ⟨operations, s₃, h₃, hlast⟩ := ends_bind.mp hshown
  obtain ⟨rfl, rfl⟩ := ends_read.mp h₃
  obtain ⟨rfl, rfl⟩ := ends_pure.mp hlast
  exact ⟨_, g.root, by rw [← hj]; rfl⟩

lemma Managed.Sound.apart (hs : h.Sound) : Apart h where
  executed := hs.admitted.executed_nodup
  kept := kept_paths_nodup hs.kept
  shown os root report s' he := by
    obtain ⟨s₁, g, hops⟩ := history_of_ends he
    rw [hops]
    refine ⟨hs.admitted.shown_nodup, fun id e hm => ?_⟩
    obtain ⟨hmem, -, hstatus, -⟩ := mem_undoable.mp hm
    exact hs.admitted.shown_executed hmem hstatus
  one _ _ he := hs.admitted.undoable_one he
  touched os root id := by
    have hsteps : Follows (UndoAny (undoable h.sys.journal (some id))) (undoOperation os root id)
        h.sys := follows_undoWithFilter
    have hlabels : Follows (fun _ e _ => e.purpose = .store ∨
        ∃ entry ∈ undoable h.sys.journal (some id), UndoStep entry e)
        (undoOperation os root id) h.sys := hsteps.mono fun _ _ _ h => h.2
    exact chain_labels.mp hlabels

/-- **An undo touches its own operation only**, in every run in which the names that operations
take from the clock are new: on a root without a journal, whatever calls follow, wherever they
are cut off and whatever is changed between them. -/
theorem operations_apart {es : List Event} {s : Sys} (hj : s.journal = [])
    (hnew : Meets Managed.step Managed.New ⟨s, []⟩ es)
    (hr : run Managed.step ⟨s, []⟩ es = some h) : Apart h := by
  have hs : Managed.Sound ⟨s, []⟩ := ⟨hj ▸ .nil, .nil⟩
  exact (run_invariant (fun hs hnew he => hs.step hnew he) hs hnew hr).apart

/-! ### Sample runs -/

lemma itemNew_of_empty {check : PrecheckResult} {i : ℕ} (hj : s.journal = []) :
    ItemNew os g [] [] i check s := by
  unfold ItemNew
  rw [hj]
  split
  · split
    · exact List.not_mem_nil
    · exact List.not_mem_nil
    · exact List.not_mem_nil
    · exact fun _ _ _ => ⟨List.not_mem_nil, List.not_mem_nil⟩
    · exact ⟨List.not_mem_nil, List.not_mem_nil⟩
  · exact fun _ _ id hid => by cases hid

/-- The first batch of a root, if it has one item, meets no name. -/
lemma batchNew_first {report : ProposalReport} {p : Proposal} (hp : report.proposals = [p])
    (hj : s.journal = []) : BatchNew os [] root report s := by
  intro g precheck store s₁ hg hprecheck hopen
  have hj₁ : s₁.journal = [] := (journal_of_openStore hopen).trans hj
  unfold precheckProposals at hprecheck
  split at hprecheck
  · cases hprecheck
  · cases hprecheck
    rw [hp, hj₁]
    exact ⟨itemNew_of_empty hj₁, fun _ _ _ => trivial⟩

/-- A directory is to be made in the managed root. -/
def makeDir (name : String) : ProposalReport := ⟨"/home", [.plain .createDir "" name 0 none]⟩

def homeRoot : Sys := .fresh [([homeName], .dir 1)]

def home : RawPath := Path.raw [homeName]

/-- A directory is made, and that is undone. -/
def makeAndUndo : List Event :=
  [.call .still (.execute home (makeDir "a")) 100, .call .still (.undo home (some (opId 0 0))) 100]

theorem operations_apart_sample : ∃ h, run Managed.step ⟨homeRoot, []⟩ makeAndUndo = some h ∧
    h.sys.journal.map (·.status) = [.planned, .executed, .undoPlanned, .undone] ∧ Apart h := by
  have hrun : (run Managed.step ⟨homeRoot, []⟩ makeAndUndo).map
      (fun h => h.sys.journal.map (·.status)) = some [.planned, .executed, .undoPlanned, .undone] := by
    decide +kernel
  obtain ⟨h, hr, hstatus⟩ := Option.map_eq_some_iff.mp hrun
  have hnew : Meets Managed.step Managed.New ⟨homeRoot, []⟩ makeAndUndo :=
    ⟨batchNew_first rfl rfl, fun _ _ => ⟨trivial, fun _ _ => trivial⟩⟩
  exact ⟨h, hr, hstatus, operations_apart rfl hnew hr⟩

/-- Two batches of one item each are executed within one millisecond. -/
def twoWithinMs : List Event :=
  [.call .still (.execute home (makeDir "a")) 100, .call .still (.execute home (makeDir "b")) 100]

theorem not_operations_apart : ¬ ∀ (es : List Event) (s : Sys) (h : Managed), s.journal = [] →
    run Managed.step ⟨s, []⟩ es = some h → Apart h := by
  intro hall
  have hrun : (run Managed.step ⟨homeRoot, []⟩ twoWithinMs).map
      (fun h => decide (executedIds h.sys.journal).Nodup) = some false := by decide +kernel
  obtain ⟨h, hr, hids⟩ := Option.map_eq_some_iff.mp hrun
  exact of_decide_eq_false hids (hall twoWithinMs homeRoot h rfl hr).executed

end MouseKeeper.FileEngine
