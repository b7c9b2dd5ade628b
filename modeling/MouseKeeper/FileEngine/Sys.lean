import MouseKeeper.Posix.Missing

/-!
The state the file engine works on.

There is the directory tree and there are the rows of the managed root's journal. Clock
readings, modification times, file numbers and the sizes of directories come from the
system and may be anything. The journal's database is not an entry of the tree: the rows
are those of the one database of the root, all with a known status and action.
-/

namespace MouseKeeper.FileEngine

open Posix Trace

inductive JournalStatus
  | planned
  | executed
  | undoPlanned
  | undone
  deriving DecidableEq

inductive JournalAction
  | move
  | trash
  | createDir
  | createFile
  | readmeWrite
  deriving DecidableEq

structure JournalEntry where
  operationId : String
  status : JournalStatus
  action : JournalAction
  fromPath : String
  toPath : String
  createdUnixMs : ℕ
  deriving DecidableEq

structure TrashMetadata where
  operationId : String
  originalPath : String
  trashedPath : String
  sizeBytes : ℕ
  modifiedUnixMs : Option ℕ
  trashedUnixMs : ℕ

/-- What the system answers. Clock readings may differ whenever the disk or the journal does,
and the clock is read anew for each journal row. -/
structure Os extends Kernel where
  unixMs : ℕ → ℕ → ℕ
  rowMs : ℕ → ℕ → ℕ
  unixNanos : ℕ → ℕ → ℕ
  dirLen : ℕ → Path → ℕ
  dirMtime : ℕ → Path → Option ℕ
  birthMs : ℕ → Path → Option ℕ
  dev : ℕ
  toStringPretty : TrashMetadata → Content

structure Sys extends Disk where
  journal : List JournalEntry

/-- A system whose clocks stand still, numbering new entries by the changes made so far. -/
def Os.still : Os where
  mtime _ := some 0
  ino n := 1000 + n
  unixMs _ _ := 0
  rowMs _ _ := 0
  unixNanos _ _ := 0
  dirLen _ _ := 0
  dirMtime _ _ := none
  birthMs _ _ := none
  dev := 0
  toStringPretty _ := []

/-- A fresh state with the given entries and an empty journal. -/
def Sys.fresh (entries : List (Path × Node)) : Sys where
  tree := .build entries
  tick := 0
  journal := []

/-! ### What the steps do -/

/-- What a step is for. -/
inductive Purpose
  | store
  | row
  | recovered
  | parent (id : String)
  | target (action : JournalAction) (id : String)
  | metadata (id : String)
  | backup (id : String)
  | absent (id : String)
  | undo (action : JournalAction) (id : String)
  deriving DecidableEq

/-- What a step does: a change of the tree, or of the database file at `place`. -/
inductive Act
  | fs (c : Change)
  | opened (place : Path)
  | appended (place : Path) (entry : JournalEntry)
  deriving DecidableEq

structure Effect where
  purpose : Purpose
  act : Act
  deriving DecidableEq

/-- The places a step creates, moves, renames or writes. -/
def Effect.places (e : Effect) : List Path :=
  match e.act with
  | .fs c => c.places
  | .opened p => [p]
  | .appended p _ => [p]

/-- The file a step overwrites or removes, with what it held. -/
def Effect.destroyed (e : Effect) : Option (Path × Content) :=
  match e.act with
  | .fs (.write p (some old) _) => some (p, old)
  | .fs (.rename _ dst _ (some (.file c _ _))) => some (dst, c)
  | .fs (.remove p (.file c _ _)) => some (p, c)
  | _ => none

abbrev Engine (ε α : Type) : Type := Prog Sys Effect ε α

/-! ### Programs on the disk and readings of the clock -/

/-- A program on the disk, run for some purpose. -/
def fs (purpose : Purpose) {α : Type} (m : DiskProg α) : Engine Errno α :=
  Prog.zoom Sys.toDisk (fun s d => { s with toDisk := d }) (fun c => ⟨purpose, .fs c⟩) m

section

variable {ε α β : Type} {purpose : Purpose} {m : DiskProg α} {g : Errno → ε}
  {f : α → Engine ε β} {s : Sys} {P : Effect → Prop}

@[simp] lemma ends_fs {a : α} {s' : Sys} : Ends (fs purpose m) s a s' ↔
    ∃ d, Ends m s.toDisk a d ∧ s' = { s with toDisk := d } := ends_zoom fun _ => rfl

@[simp] lemma run_fs : ((fs purpose m).run s).result = (m.run s.toDisk).result := rfl

lemma final_fs : (fs purpose m).final s = { s with toDisk := m.final s.toDisk } :=
  final_zoom (fun _ => rfl) m s

lemma emits_fs : Emits P (fs purpose m) s ↔ Emits (fun c => P ⟨purpose, .fs c⟩) m s.toDisk :=
  emits_zoom

lemma follows_call {c : Disk → Except Errno (Change × Tree)} {R : Sys → Effect → Sys → Prop}
    (h : ∀ x t, c s.toDisk = .ok (x, t) →
      R s ⟨purpose, .fs x⟩ { s with tree := t, tick := s.tick + 1 }) :
    Follows R (fs purpose (Disk.call c)) s := by
  have hcall : Follows (fun d x d' => d = s.toDisk ∧ R s ⟨purpose, .fs x⟩ { s with toDisk := d' })
      (Disk.call c) s.toDisk := Disk.follows_call fun x t hx => ⟨rfl, h x t hx⟩
  refine follows_zoom hcall (fun _ => rfl) ?_
  rintro d x d' ⟨rfl, hR⟩
  exact hR

lemma emits_fs_bind : Emits P (Prog.mapErr g (fs purpose m) >>= f) s ↔
    Emits (fun c => P ⟨purpose, .fs c⟩) m s.toDisk ∧ ∀ a d, Ends m s.toDisk a d →
      Emits P (f a) { s with toDisk := d } := by
  rw [emits_bind, emits_mapErr, emits_fs]
  simp only [ends_mapErr, ends_fs]
  refine and_congr_right fun _ => ⟨fun h a d hd => h a _ ⟨d, hd, rfl⟩, ?_⟩
  rintro h a _ ⟨d, hd, rfl⟩
  exact h a d hd

end

variable (os : Os)

def unixMs (s : Sys) : ℕ := os.unixMs s.tick s.journal.length

def rowMs (s : Sys) : ℕ := os.rowMs s.tick s.journal.length

def unixNanos (s : Sys) : ℕ := os.unixNanos s.tick s.journal.length

/-! ### Metadata -/

/-- `metadata.len()` of what stands at a place. -/
def metadataLen (s : Sys) (p : Path) : ℕ :=
  match s.tree.get p with
  | some (.file c _ _) => c.length
  | _ => os.dirLen s.tick p

def modifiedUnixMs (s : Sys) (p : Path) : Option ℕ :=
  match s.tree.get p with
  | some (.file _ m _) => m
  | _ => os.dirMtime s.tick p

/-- Sixteen hexadecimal digits, as `{:016x}` writes them. -/
def hex16 (n : ℕ) : String :=
  let digits := Nat.toDigits 16 n
  String.ofList (List.replicate (16 - digits.length) '0' ++ digits)

/-- `file_id_for_path`. -/
def fileIdForPath (s : Sys) (p : Path) : Option String :=
  match s.tree.get p with
  | some (.file _ _ i) | some (.dir i) => some ("unix:d" ++ hex16 os.dev ++ ":i" ++ hex16 i)
  | _ => none

end MouseKeeper.FileEngine
