import MouseKeeper.FileEngine.Guard

/-!
The journal store: the rows of one managed root, opened, appended to and read.
-/

namespace MouseKeeper.FileEngine

open Posix Trace

def STATE_DIR : String := ".mousekeeper"

def TRASH_DIR : String := ".mousekeeper_trash"

def DB_FILE : String := "mousekeeper.db"

inductive DbError
  | createStateDir (path : RawPath) (message : String)
  | openDb (path : RawPath) (message : String)
  deriving DecidableEq

inductive JournalError
  | guard (error : PathGuardError)
  | db (error : DbError)
  deriving DecidableEq

def DbError.toText : DbError → String
  | .createStateDir path message =>
    "cannot create state directory " ++ path.display ++ ": " ++ message
  | .openDb path message => "cannot open database " ++ path.display ++ ": " ++ message

def JournalError.toText : JournalError → String
  | .guard error => error.toText
  | .db error => error.toText

/-- An open store; `place` is where its database file was found or made. -/
structure JournalStore where
  dbPath : RawPath
  place : Path

def dbPathForRoot (root : Path) : RawPath := root.raw ++ segsOf STATE_DIR ++ segsOf DB_FILE

variable (os : Os)

/-- Where the database file is, once its directory is there. -/
def dbPlace (t : Tree) (root : Path) : Except JournalError Path :=
  match t.place (dbPathForRoot root) with
  | .error e => .error (.db (.openDb (dbPathForRoot root) e.toText))
  | .ok p =>
    if t.isDir p then .error (.db (.openDb (dbPathForRoot root) Errno.isdir.toText)) else .ok p

namespace JournalStore

def openStore (root : Path) : Engine JournalError JournalStore := do
  let dir := root.raw ++ segsOf STATE_DIR
  Prog.mapErr (fun e => .db (.createStateDir dir e.toText))
    (fs .store (Disk.createDirAll os.toKernel dir))
  let p ← Prog.check fun s => dbPlace s.tree root
  Prog.step fun s => .ok ((), ⟨.store, .opened p⟩, s)
  pure ⟨dbPathForRoot root, p⟩

def journalPathDisplay (store : JournalStore) : String := store.dbPath.display

/-- Appends the row made with the clock as it stands. -/
def append {ε : Type} (store : JournalStore) (purpose : Purpose) (entry : ℕ → JournalEntry) :
    Engine ε Unit :=
  Prog.step fun s =>
    let row := entry (rowMs os s)
    .ok ((), ⟨purpose, .appended store.place row⟩, { s with journal := s.journal ++ [row] })

section

variable {os} {ε β : Type} {store : JournalStore} {purpose : Purpose} {entry : ℕ → JournalEntry}
  {f : Unit → Engine ε β} {s : Sys} {P : Effect → Prop}

/-- The state once the row is written. -/
def appended (os : Os) (entry : ℕ → JournalEntry) (s : Sys) : Sys :=
  { s with journal := s.journal ++ [entry (rowMs os s)] }

@[simp] lemma appended_toDisk : (appended os entry s).toDisk = s.toDisk := rfl

@[simp] lemma appended_journal :
    (appended os entry s).journal = s.journal ++ [entry (rowMs os s)] := rfl

@[simp] lemma ends_append {u : Unit} {s' : Sys} :
    Ends (store.append os purpose entry : Engine ε Unit) s u s' ↔ s' = appended os entry s := by
  unfold append
  rw [ends_step]
  simp [appended, eq_comm]

lemma emits_append : Emits P (store.append os purpose entry : Engine ε Unit) s ↔
    P ⟨purpose, .appended store.place (entry (rowMs os s))⟩ := by
  unfold append
  rw [emits_step]
  simp

lemma emits_append_bind : Emits P (store.append os purpose entry >>= f) s ↔
    P ⟨purpose, .appended store.place (entry (rowMs os s))⟩ ∧
      Emits P (f ()) (appended os entry s) := by
  simp only [emits_bind, emits_append, ends_append, forall_eq]
  exact and_congr_right fun _ => ⟨fun h => h (), fun h _ => h⟩

end

def readAll {ε : Type} : Engine ε (List JournalEntry) := Prog.read fun s => s.journal

/-- What an opened store has done: made its directory and found its place. -/
lemma ends_openStore {os : Os} {root : Path} {s s' : Sys} {store : JournalStore} :
    Ends (openStore os root) s store s' ↔
      ∃ d p, Ends (Disk.createDirAll os.toKernel (root.raw ++ segsOf STATE_DIR)) s.toDisk () d ∧
        dbPlace d.tree root = .ok p ∧ store = ⟨dbPathForRoot root, p⟩ ∧
        s' = { s with toDisk := d } := by
  unfold openStore
  simp only [ends_bind, ends_mapErr, ends_fs, ends_check, ends_step, ends_pure]
  constructor
  · rintro ⟨_, _, ⟨d, hd, rfl⟩, p, _, ⟨hp, rfl⟩, _, _, ⟨_, he⟩, rfl, rfl⟩
    cases he
    exact ⟨d, p, hd, hp, rfl, rfl⟩
  · rintro ⟨d, p, hd, hp, rfl, rfl⟩
    exact ⟨(), _, ⟨d, hd, rfl⟩, p, _, ⟨hp, rfl⟩, (), _, ⟨_, rfl⟩, rfl, rfl⟩

lemma grown_openStore {os : Os} {root : Path} {s s' : Sys} {store : JournalStore}
    (h : Ends (openStore os root) s store s') : Disk.Grown s.tree s'.tree := by
  obtain ⟨d, p, hd, -, -, rfl⟩ := ends_openStore.mp h
  exact Disk.grown_of_ends hd

lemma emits_openStore {os : Os} {root : Path} {s : Sys} {P : Effect → Prop} :
    Emits P (openStore os root) s ↔
      let m := Disk.createDirAll os.toKernel (root.raw ++ segsOf STATE_DIR)
      Emits (fun c => P ⟨.store, .fs c⟩) m s.toDisk ∧ ∀ d, Ends m s.toDisk () d →
        ∀ p, dbPlace d.tree root = .ok p → P ⟨.store, .opened p⟩ := by
  unfold openStore
  rw [emits_fs_bind]
  refine and_congr_right fun _ => ⟨fun h d hd p hp => ?_, fun h _ d hd => ?_⟩
  · have h' := emits_check_bind.mp (h () d hd) p hp
    exact emits_step.mp (emits_bind.mp h').1 _ _ _ rfl
  · refine emits_check_bind.mpr fun p hp => emits_bind.mpr ⟨?_, fun _ _ _ => emits_pure _⟩
    refine emits_step.mpr fun _ e s' he => ?_
    cases he
    exact h d hd p hp

end JournalStore

end MouseKeeper.FileEngine
