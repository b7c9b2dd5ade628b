import Mathlib.Algebra.Group.Int.Defs
import Mathlib.Algebra.GroupWithZero.Nat
import Mathlib.Data.List.Forall2
import MouseKeeper.FileEngine.Sys
import MouseKeeper.Machine

/-!
Recovery of a journal that has a row in it that nobody understands.

The recovery looks at the rows, reads them again, writes them to a file beside the database and
clears the table. Others may append rows between any two of these steps, and every step may fail.
-/

namespace MouseKeeper.FileEngine.Recovery

open MouseKeeper.Machine

/-! ### Rows -/

structure RawJournalRow where
  seq : ℕ
  operationId : String
  status : String
  action : String
  fromPath : String
  toPath : String
  createdUnixMs : ℤ
  deriving DecidableEq, Repr

/-- A row of the table, and whether its columns have the types that are read. -/
structure StoredRow where
  row : RawJournalRow
  readable : Bool
  deriving DecidableEq, Repr

def JournalStatus.asDbStr : JournalStatus → String
  | .planned => "planned"
  | .executed => "executed"
  | .undoPlanned => "undo_planned"
  | .undone => "undone"

def JournalStatus.fromDbStr (value : String) : Option JournalStatus :=
  [.planned, .executed, .undoPlanned, .undone].find? fun status => asDbStr status = value

def JournalAction.asDbStr : JournalAction → String
  | .move => "move"
  | .trash => "trash"
  | .createDir => "create_dir"
  | .createFile => "create_file"
  | .readmeWrite => "readme_write"

def JournalAction.fromDbStr (value : String) : Option JournalAction :=
  [.move, .trash, .createDir, .createFile, .readmeWrite].find? fun action => asDbStr action = value

/-- `value as i64`. -/
def asI64 (value : ℕ) : ℤ := (value : ℤ).bmod (2 ^ 64)

/-- `value as u128`. -/
def asU128 (value : ℤ) : ℕ := (value % 2 ^ 128).toNat

/-- The entry of a row whose status and action are known. -/
def RawJournalRow.entry (r : RawJournalRow) : Option JournalEntry := do
  let status ← JournalStatus.fromDbStr r.status
  let action ← JournalAction.fromDbStr r.action
  some ⟨r.operationId, status, action, r.fromPath, r.toPath, asU128 r.createdUnixMs⟩

/-- The row that is inserted for an entry. -/
def insertedRow (seq : ℕ) (entry : JournalEntry) : StoredRow where
  row :=
    { seq
      operationId := entry.operationId
      status := JournalStatus.asDbStr entry.status
      action := JournalAction.asDbStr entry.action
      fromPath := entry.fromPath
      toPath := entry.toPath
      createdUnixMs := asI64 entry.createdUnixMs }
  readable := true

def StoredRow.Valid (x : StoredRow) : Prop := x.readable = true ∧ x.row.entry.isSome = true

instance (x : StoredRow) : Decidable x.Valid := inferInstanceAs (Decidable (_ ∧ _))

lemma insertedRow_valid (seq : ℕ) (entry : JournalEntry) : (insertedRow seq entry).Valid := by
  obtain ⟨id, status, action, src, dst, time⟩ := entry
  refine ⟨rfl, ?_⟩
  cases status <;> cases action <;> rfl

/-- `operation_journal`: a new row gets a number above all that were there. -/
structure JournalTable where
  rows : List StoredRow
  sequence : ℕ
  sorted : rows.Pairwise fun x y => x.row.seq < y.row.seq
  bounded : ∀ x ∈ rows, x.row.seq ≤ sequence

namespace JournalTable

variable (t : JournalTable)

def append (entry : JournalEntry) : JournalTable where
  rows := t.rows ++ [insertedRow (t.sequence + 1) entry]
  sequence := t.sequence + 1
  sorted := by
    refine List.pairwise_append.mpr ⟨t.sorted, List.pairwise_singleton _ _, fun x hx y hy => ?_⟩
    obtain rfl := List.mem_singleton.mp hy
    exact Nat.lt_succ_of_le (t.bounded x hx)
  bounded := by
    intro x hx
    rcases List.mem_append.mp hx with hx | hx
    · exact (t.bounded x hx).trans (Nat.le_succ _)
    · obtain rfl := List.mem_singleton.mp hx
      exact le_rfl

def clear : JournalTable := ⟨[], t.sequence, List.Pairwise.nil, nofun⟩

end JournalTable

structure JournalCorruption where
  line : ℕ
  message : String
  deriving DecidableEq, Repr

inductive RecoverError
  | openStore
  | query
  | notCorrupted
  | writeQuarantine
  deriving DecidableEq, Repr

/-- `read_raw`: every column of every row has to have its type. -/
def readRaw (rows : List StoredRow) : Except RecoverError (List RawJournalRow) :=
  if rows.all (·.readable) then .ok (rows.map (·.row)) else .error .query

/-- The entries up to the first row that is not known, which is told by its place. -/
def lenient : ℕ → List RawJournalRow → List JournalEntry × Option JournalCorruption
  | _, [] => ([], none)
  | line, r :: rows =>
    match r.entry with
    | some entry => (entry :: (lenient (line + 1) rows).1, (lenient (line + 1) rows).2)
    | none => ([], some ⟨line, "unrecognized journal row (status='" ++ r.status ++ "', action='" ++
        r.action ++ "')"⟩)

/-! ### The recovery -/

/-- What the recovery does next, with what it has read and not yet written. -/
inductive Phase
  | opening
  | looking
  | reading
  | creating (raw : List RawJournalRow)
  | dumping (rest : List RawJournalRow)
  | done (result : Except RecoverError Unit)
  deriving DecidableEq

/-- The table and the file beside it. The rows there were before, those appended since, and how many
of these when the rows were read and when they were cleared, are only observed. -/
structure State where
  table : JournalTable
  phase : Phase
  quarantine : Option (List RawJournalRow)
  before : List StoredRow
  appended : List StoredRow
  read : ℕ
  cleared : ℕ

/-- Another execute or undo appends, or the recovery takes its next step, which may fail. -/
inductive Event
  | append (entry : JournalEntry)
  | advance (ok : Bool)
  deriving DecidableEq

def Event.entry : Event → Option JournalEntry
  | .append entry => some entry
  | .advance _ => none

namespace State

variable (s : State)

def fail (e : RecoverError) : State := { s with phase := .done (.error e) }

/-- A statement that reads the rows. -/
def query (ok : Bool) : Except RecoverError (List RawJournalRow) :=
  if ok then readRaw s.table.rows else .error .query

def advance (ok : Bool) : Phase → Option State
  | .opening => some (if ok then { s with phase := .looking } else s.fail .openStore)
  | .looking =>
    match s.query ok with
    | .error e => some (s.fail e)
    | .ok raw =>
      match (lenient 1 raw).2 with
      | none => some (s.fail .notCorrupted)
      | some _ => some { s with phase := .reading }
  | .reading =>
    match s.query ok with
    | .error e => some (s.fail e)
    | .ok raw => some { s with phase := .creating raw, read := s.appended.length }
  | .creating raw =>
    some (if ok then { s with phase := .dumping raw, quarantine := some [] }
      else s.fail .writeQuarantine)
  | .dumping (r :: rest) =>
    some (if ok then
        { s with phase := .dumping rest, quarantine := s.quarantine.map (· ++ [r]) }
      else s.fail .writeQuarantine)
  | .dumping [] =>
    some (if ok then
        { s with table := s.table.clear, phase := .done (.ok ()), cleared := s.appended.length }
      else s.fail .query)
  | .done _ => none

def step : Event → Option State
  | .append entry =>
    some { s with
      table := s.table.append entry
      appended := s.appended ++ [insertedRow (s.table.sequence + 1) entry] }
  | .advance ok => s.advance ok s.phase

end State

def start (table : JournalTable) : State where
  table := table
  phase := .opening
  quarantine := none
  before := table.rows
  appended := []
  read := 0
  cleared := 0

/-! ### What holds -/

/-- The rows that the recovery has read. -/
def State.found (s : State) : List RawJournalRow :=
  (s.before ++ s.appended.take s.read).map (·.row)

/-- The rows are in the table, or a recovery that has come to its end has written all that it found
to the file, and the rows appended since it cleared the table are there. -/
structure State.Recovered (s : State) : Prop where
  kept : s.phase ≠ .done (.ok ()) → s.table.rows = s.before ++ s.appended
  quarantined : s.phase = .done (.ok ()) → s.quarantine = some s.found
  fresh : s.phase = .done (.ok ()) → s.table.rows = s.appended.drop s.cleared
  order : s.phase = .done (.ok ()) → s.read ≤ s.cleared ∧ s.cleared ≤ s.appended.length
  /-- No row has been there twice. -/
  once : (s.before ++ s.appended).Pairwise fun x y => x.row.seq < y.row.seq

/-- What is known while the recovery goes on. -/
def Phase.Known (s : State) : Phase → Prop
  | .opening | .looking | .reading | .done _ => True
  | .creating raw => raw = s.found ∧ s.read ≤ s.appended.length
  | .dumping rest => (∃ written, s.quarantine = some written ∧ written ++ rest = s.found) ∧
    s.read ≤ s.appended.length

structure Inv (s : State) : Prop extends s.Recovered where
  known : s.phase.Known s
  bounded : ∀ x ∈ s.before ++ s.appended, x.row.seq ≤ s.table.sequence

variable {s s' : State} {e : Event} {es : List Event} {table : JournalTable}

lemma found_append {s : State} (h : s.read ≤ s.appended.length) (x : StoredRow) :
    (s.before ++ (s.appended ++ [x]).take s.read).map (·.row) = s.found := by
  rw [List.take_append_of_le_length h, State.found]

lemma Inv.append (h : Inv s) (entry : JournalEntry)
    (hs : s.step (.append entry) = some s') : Inv s' := by
  cases hs
  refine ⟨⟨fun hne => ?_, fun hd => ?_, fun hd => ?_, fun hd => ?_, ?_⟩, ?_, fun x hx => ?_⟩
  · show s.table.rows ++ _ = s.before ++ (s.appended ++ _)
    rw [h.kept hne, List.append_assoc]
  · obtain ⟨hr, hc⟩ := h.order hd
    exact (h.quarantined hd).trans (congrArg some (found_append (hr.trans hc) _).symm)
  · show s.table.rows ++ _ = (s.appended ++ _).drop s.cleared
    rw [h.fresh hd, List.drop_append_of_le_length (h.order hd).2]
  · obtain ⟨hr, hc⟩ := h.order hd
    refine ⟨hr, hc.trans ?_⟩
    show s.appended.length ≤ (s.appended ++ _).length
    simp
  · rw [← List.append_assoc]
    refine List.pairwise_append.mpr ⟨h.once, List.pairwise_singleton _ _, fun x hx y hy => ?_⟩
    obtain rfl := List.mem_singleton.mp hy
    exact Nat.lt_succ_of_le (h.bounded x hx)
  · have hlen : s.appended.length ≤
        (s.appended ++ [insertedRow (s.table.sequence + 1) entry]).length := by simp
    have hk := h.known
    revert hk
    show s.phase.Known s → s.phase.Known _
    cases s.phase with
    | creating raw =>
      rintro ⟨hraw, hr⟩
      exact ⟨hraw.trans (found_append hr _).symm, hr.trans hlen⟩
    | dumping rest =>
      rintro ⟨⟨written, hw, hrest⟩, hr⟩
      exact ⟨⟨written, hw, hrest.trans (found_append hr _).symm⟩, hr.trans hlen⟩
    | opening | looking | reading | done => exact id
  · rw [← List.append_assoc] at hx
    rcases List.mem_append.mp hx with hx | hx
    · exact (h.bounded x hx).trans (Nat.le_succ _)
    · obtain rfl := List.mem_singleton.mp hx
      exact le_rfl

lemma Inv.fail (h : Inv s) (hp : s.phase ≠ .done (.ok ())) (e : RecoverError) : Inv (s.fail e) :=
  ⟨⟨fun _ => h.kept hp, nofun, nofun, nofun, h.once⟩, trivial, h.bounded⟩

/-- The rows stay where they are. -/
lemma Inv.move (h : Inv s) (hp : s.phase ≠ .done (.ok ())) (p : Phase)
    (hq : p ≠ .done (.ok ())) (quarantine : Option (List RawJournalRow)) (read : ℕ)
    (hk : p.Known { s with phase := p, quarantine := quarantine, read := read }) :
    Inv { s with phase := p, quarantine := quarantine, read := read } :=
  ⟨⟨fun _ => h.kept hp, fun hd => absurd hd hq, fun hd => absurd hd hq, fun hd => absurd hd hq,
    h.once⟩, hk, h.bounded⟩

lemma query_eq_ok {ok : Bool} {raw : List RawJournalRow} (h : s.query ok = .ok raw) :
    raw = s.table.rows.map (·.row) := by
  unfold State.query readRaw at h
  split at h
  · split at h
    · exact (Except.ok.inj h).symm
    · cases h
  · cases h

lemma Inv.advance (h : Inv s) (ok : Bool) (hs : s.advance ok s.phase = some s') : Inv s' := by
  have hk := h.known
  cases hp : s.phase with
  | opening =>
    rw [hp] at hs
    have hgo : s.phase ≠ .done (.ok ()) := by rw [hp]; nofun
    cases hs
    split
    · exact h.move hgo .looking nofun s.quarantine s.read trivial
    · exact h.fail hgo _
  | looking =>
    rw [hp] at hs
    have hgo : s.phase ≠ .done (.ok ()) := by rw [hp]; nofun
    simp only [State.advance] at hs
    split at hs
    · cases hs
      exact h.fail hgo _
    · split at hs
      · cases hs
        exact h.fail hgo _
      · cases hs
        exact h.move hgo .reading nofun s.quarantine s.read trivial
  | reading =>
    rw [hp] at hs
    have hgo : s.phase ≠ .done (.ok ()) := by rw [hp]; nofun
    simp only [State.advance] at hs
    split at hs
    · cases hs
      exact h.fail hgo _
    · rename_i raw hraw
      cases hs
      refine h.move hgo (.creating raw) nofun s.quarantine s.appended.length ⟨?_, le_rfl⟩
      rw [query_eq_ok hraw, h.kept hgo, State.found, List.take_length]
  | creating raw =>
    rw [hp] at hs hk
    have hgo : s.phase ≠ .done (.ok ()) := by rw [hp]; nofun
    obtain ⟨hraw, hr⟩ := hk
    cases hs
    split
    · exact h.move hgo (.dumping raw) nofun (some []) s.read ⟨⟨[], rfl, hraw⟩, hr⟩
    · exact h.fail hgo _
  | dumping rest =>
    rw [hp] at hs hk
    have hgo : s.phase ≠ .done (.ok ()) := by rw [hp]; nofun
    obtain ⟨⟨written, hw, hrest⟩, hr⟩ := hk
    cases rest with
    | nil =>
      cases hs
      split
      · refine ⟨⟨fun hne => absurd rfl hne, fun _ => ?_, fun _ => ?_, fun _ => ⟨hr, le_rfl⟩,
          h.once⟩, trivial, h.bounded⟩
        · exact hw.trans (congrArg some (by rw [← List.append_nil written, hrest]; rfl))
        · exact (List.drop_length).symm
      · exact h.fail hgo _
    | cons r rest =>
      cases hs
      split
      · refine h.move hgo (.dumping rest) nofun (s.quarantine.map (· ++ [r])) s.read
          ⟨⟨written ++ [r], ?_, ?_⟩, hr⟩
        · rw [hw]
          rfl
        · rw [List.append_assoc]
          exact hrest
      · exact h.fail hgo _
  | done result =>
    rw [hp] at hs
    cases hs

lemma Inv.step (h : Inv s) (hs : s.step e = some s') : Inv s' := by
  cases e with
  | append entry => exact h.append entry hs
  | advance ok => exact h.advance ok hs

lemma Inv.start (table : JournalTable) : Inv (start table) := by
  have hrows : (Recovery.start table).before ++ (Recovery.start table).appended = table.rows :=
    List.append_nil _
  exact ⟨⟨fun _ => hrows.symm, nofun, nofun, nofun, hrows ▸ table.sorted⟩, trivial,
    hrows ▸ table.bounded⟩

/-! ### Runs -/

/-- What the observation tells: the rows before stay, and each append adds its row. -/
lemma observed_step (hs : s.step e = some s') : s'.before = s.before ∧
    ∃ rows, s'.appended = s.appended ++ rows ∧
      List.Forall₂ (fun x entry => ∃ seq, x = insertedRow seq entry) rows e.entry.toList := by
  cases e with
  | append entry =>
    cases hs
    exact ⟨rfl, _, rfl, .cons ⟨_, rfl⟩ .nil⟩
  | advance ok =>
    have hsame : s'.before = s.before ∧ s'.appended = s.appended := by
      unfold State.step State.advance State.fail at hs
      grind
    exact ⟨hsame.1, [], by rw [hsame.2, List.append_nil], .nil⟩

lemma observed (hr : run State.step s es = some s') : s'.before = s.before ∧
    ∃ rows, s'.appended = s.appended ++ rows ∧
      List.Forall₂ (fun x entry => ∃ seq, x = insertedRow seq entry) rows
        (es.filterMap Event.entry) := by
  induction es generalizing s with
  | nil =>
    cases hr
    exact ⟨rfl, [], (List.append_nil _).symm, .nil⟩
  | cons e es ih =>
    obtain ⟨t, ht, hr⟩ := Option.bind_eq_some_iff.mp hr
    obtain ⟨hb, rows, hrows, hall⟩ := observed_step ht
    obtain ⟨hb', rows', hrows', hall'⟩ := ih hr
    refine ⟨hb'.trans hb, rows ++ rows', by rw [hrows', hrows, List.append_assoc], ?_⟩
    rw [List.filterMap_cons]
    cases he : e.entry with
    | none =>
      rw [he] at hall
      cases hall
      exact hall'
    | some entry =>
      rw [he] at hall
      exact List.rel_append hall hall'

/-- **A recovery puts what it found aside and loses nothing of it**, whatever is appended meanwhile
and wherever it fails. -/
theorem recovered (hr : run State.step (start table) es = some s) : s.Recovered ∧
    s.before = table.rows ∧ List.Forall₂ (fun x entry => ∃ seq, x = insertedRow seq entry)
      s.appended (es.filterMap Event.entry) := by
  have hall : Meets State.step (fun _ _ => True) (start table) es :=
    meets_of_forall fun _ _ _ => trivial
  have hinv : Inv s :=
    run_invariant (I := Inv) (fun hi _ hs => hi.step hs) (.start table) hall hr
  obtain ⟨hb, rows, hrows, hall⟩ := observed hr
  refine ⟨hinv.toRecovered, hb, ?_⟩
  rw [hrows]
  exact hall

/-! ### Samples -/

def moved (status : JournalStatus) : JournalEntry := ⟨"op-1", status, .move, "a", "b/a", 7⟩

/-- A row that is understood and one that is not. -/
def halfKnown : JournalTable where
  rows := [insertedRow 1 (moved .planned), ⟨⟨2, "op-2", "done", "move", "c", "d", 8⟩, true⟩]
  sequence := 2
  sorted := by decide
  bounded := by decide

/-- Entries are appended before the rows are read, and after they are cleared. -/
def appendedBetween : List Event :=
  [.advance true, .append (moved .executed), .advance true, .advance true, .advance true,
    .advance true, .advance true, .advance true, .advance true, .append (moved .undoPlanned)]

theorem recovered_sample : ∃ s, run State.step (start halfKnown) appendedBetween = some s ∧
    s.phase = .done (.ok ()) ∧ s.table.rows = [insertedRow 4 (moved .undoPlanned)] ∧
    s.Recovered := by
  have hrun : ∃ s, run State.step (start halfKnown) appendedBetween = some s ∧
      s.phase = .done (.ok ()) ∧ s.table.rows = [insertedRow 4 (moved .undoPlanned)] :=
    ⟨_, rfl, rfl, rfl⟩
  obtain ⟨s, hr, hdone, hrows⟩ := hrun
  exact ⟨s, hr, hdone, hrows, (recovered hr).1⟩

/-- After a recovery a row that was understood is no longer there. -/
theorem not_recovered : ¬ ∀ (table : JournalTable) (es : List Event) (s : State),
    run State.step (start table) es = some s → s.phase = .done (.ok ()) →
      (s.before ++ s.appended).filter (·.Valid) = s.table.rows.filter (·.Valid) := by
  intro h
  have hrun : ∃ s, run State.step (start halfKnown)
      [.advance true, .advance true, .advance true, .advance true, .advance true, .advance true,
        .advance true] = some s ∧ s.phase = .done (.ok ()) ∧ s.table.rows = [] ∧
      s.before ++ s.appended = halfKnown.rows :=
    ⟨_, rfl, rfl, rfl, rfl⟩
  obtain ⟨s, hr, hdone, hrows, hall⟩ := hrun
  have hvalid := h halfKnown _ s hr hdone
  rw [hrows, hall] at hvalid
  exact absurd hvalid (by decide)

end MouseKeeper.FileEngine.Recovery
