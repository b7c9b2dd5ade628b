import Mathlib.Data.List.Nodup
import Mathlib.Data.String.Basic

/-!
The desktop outbox and its delivery.

Rows are kept in insertion order. `enqueue` adds a row unless its kind and key are taken;
`enqueueReplacing` supersedes the pending rows of the kind with smaller keys and adds a row
unless one of the kind has a key at least as large. A flush reads a batch of pending rows
once and then works through it, dispatching and marking one item after the other, while
rows come and change and other flushes may be under way.
-/

namespace MouseKeeper.Desktop.Outbox

inductive RowState where
  | pending | sent | failed | superseded
  deriving DecidableEq, Repr

structure Row where
  id : ℕ
  kind : String
  key : String
  payload : String
  state : RowState
  attempts : ℕ
  lastError : Option String
  deriving DecidableEq, Repr

structure Store where
  rows : List Row
  nextId : ℕ
  deriving DecidableEq, Repr

def Store.empty : Store := ⟨[], 1⟩

namespace Store

def insert (kind key payload : String) (s : Store) : Store :=
  ⟨s.rows ++ [⟨s.nextId, kind, key, payload, .pending, 0, none⟩], s.nextId + 1⟩

/-- `insert … on conflict (kind, idempotency_key) do nothing`. -/
def enqueue (kind key payload : String) (s : Store) : Store :=
  if s.rows.any fun r => decide (r.kind = kind) && decide (r.key = key) then s
  else s.insert kind key payload

/-- The rows after the older pending ones of a kind have been superseded. -/
def supersede (kind key : String) (s : Store) : Store :=
  { s with rows := s.rows.map fun r =>
      if r.kind = kind ∧ r.state = .pending ∧ r.key < key then { r with state := .superseded }
      else r }

def enqueueReplacing (kind key payload : String) (s : Store) : Store :=
  let s := s.supersede kind key
  if s.rows.any fun r => decide (r.kind = kind) && decide (key ≤ r.key) then s
  else s.insert kind key payload

/-- The oldest pending rows. -/
def pendingBatch (limit : ℕ) (s : Store) : List Row :=
  (s.rows.filter (·.state = .pending)).take limit

def updateState (id : ℕ) (state : RowState) (error : Option String) (s : Store) : Store :=
  { s with rows := s.rows.map fun r =>
      if r.id = id ∧ r.state = .pending then
        { r with
          state
          attempts := r.attempts + if state = .sent then 0 else 1
          lastError := error.or r.lastError }
      else r }

def markSent (id : ℕ) : Store → Store := updateState id .sent none
def markRetry (id : ℕ) (code : String) : Store → Store := updateState id .pending (some code)
def markFailed (id : ℕ) (code : String) : Store → Store := updateState id .failed (some code)

end Store

/-- The kinds that the producers enqueue without replacing; `room_snapshot:` and
`smart_cache_stale:` start the others. -/
def plainKind (kind : String) : Bool :=
  ["execution_result", "proposal", "command_status", "file_transfer_completion",
    "smart_cache_completion"].contains kind

/-- How a dispatch ends for the desktop. -/
inductive Outcome where
  | sent
  | transient (code : String)
  | terminal (code : String)
  deriving DecidableEq, Repr

def Store.mark (id : ℕ) : Outcome → Store → Store
  | .sent => markSent id
  | .transient code => markRetry id code
  | .terminal code => markFailed id code

/-- A flush under way: an item that is dispatched but not yet marked, and the items behind. -/
structure Flush where
  marking : Option (Row × Outcome)
  rest : List Row
  deriving DecidableEq, Repr

def flushBatch : ℕ := 50

/-- The table, the flushes under way by number, and what the server has received. -/
structure World where
  store : Store
  flushes : ℕ → Option Flush
  delivered : List Row

def World.initial : World := ⟨.empty, fun _ => none, []⟩

inductive Label where
  | enqueue (kind key payload : String)
  | enqueueReplacing (kind key payload : String)
  | begin (i : ℕ)
  | dispatch (i : ℕ) (reached : Bool) (o : Outcome)
  | mark (i : ℕ)
  | finish (i : ℕ)
  | abandon (i : ℕ)
  deriving DecidableEq, Repr

def World.setFlush (w : World) (i : ℕ) (f : Option Flush) : World :=
  { w with flushes := Function.update w.flushes i f }

/-- One step, if it is possible. `plain` are the kinds that producers enqueue without
replacing; the others they enqueue with replacing. A dispatch can reach the server although
its answer is lost; a flush is abandoned when marking fails or the application ends. -/
def World.step (plain : String → Bool) (w : World) : Label → Option World
  | .enqueue kind key payload =>
    if plain kind then some { w with store := w.store.enqueue kind key payload } else none
  | .enqueueReplacing kind key payload =>
    if plain kind then none
    else some { w with store := w.store.enqueueReplacing kind key payload }
  | .begin i =>
    match w.flushes i with
    | none => some (w.setFlush i (some ⟨none, w.store.pendingBatch flushBatch⟩))
    | some _ => none
  | .dispatch i reached o =>
    match w.flushes i with
    | some ⟨none, x :: rest⟩ =>
      if o = .sent ∧ reached = false then none
      else some { w.setFlush i (some ⟨some (x, o), rest⟩) with
        delivered := if reached then w.delivered ++ [x] else w.delivered }
    | _ => none
  | .mark i =>
    match w.flushes i with
    | some ⟨some (x, o), rest⟩ =>
      some { w.setFlush i (some ⟨none, rest⟩) with store := w.store.mark x.id o }
    | _ => none
  | .finish i =>
    match w.flushes i with
    | some ⟨none, []⟩ => some (w.setFlush i none)
    | _ => none
  | .abandon i => some (w.setFlush i none)

/-- A flush begins only while no other flush still has to dispatch an older row of a
replacing kind of which the new one would list a newer row. -/
def World.Clear (plain : String → Bool) (w : World) : Label → Prop
  | .begin _ => ∀ j f, w.flushes j = some f → ∀ x ∈ f.rest, plain x.kind = false →
      ∀ y ∈ w.store.pendingBatch flushBatch, y.kind = x.kind → ¬ x.key < y.key
  | _ => True

end MouseKeeper.Desktop.Outbox
