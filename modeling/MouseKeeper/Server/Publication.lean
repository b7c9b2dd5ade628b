import MouseKeeper.Machine
import MouseKeeper.Server.Sync

/-!
The publication of sync events.

One process hands the unpublished rows of `sync_events` to the realtime gateway: a timer calls
`flush`, and some requests call `publishNow` with the events that they have just committed.
Both put their work in one chain. A work reads its rows, and hands out and marks them one by
one; the first error ends it. What has been handed out is kept in a log, newest first.
-/

namespace MouseKeeper.Server.Publication

open MouseKeeper.Server.Sync

/-- An event payload: of an object, the text under `status` is all that is looked at. -/
inductive Payload where
  | object (status : Option String)
  | other
  deriving DecidableEq

/-- The columns of a row besides its user and its number. -/
structure Columns where
  id : ℕ
  eventType : String
  /-- The start of the transaction that has appended the row. -/
  occurredAt : ℕ
  payload : Payload
  deriving DecidableEq

abbrev Event (U : Type) := SyncEvent U Columns

structure Row (U : Type) where
  event : Event U
  published : Bool
  deriving DecidableEq

inductive CharacterKind where
  | ANALYZING
  | WAITING_APPROVAL
  | WORKING
  | SUCCESS
  | ERROR
  deriving DecidableEq

def characterKind (eventType : String) (status : Option String) : Option CharacterKind :=
  if eventType = "proposal.created" then some .WAITING_APPROVAL
  else if eventType = "command.updated" then
    if status = some "ANALYZING" then some .ANALYZING
    else if status = some "FAILED" then some .ERROR
    else none
  else if eventType = "execution.updated" then
    if status = some "EXECUTING" then some .WORKING
    else if status = some "SUCCEEDED" then some .SUCCESS
    else if status = some "PARTIALLY_SUCCEEDED" ∨ status = some "FAILED" ∨ status = some "STALE"
    then some .ERROR
    else none
  else none

variable {U : Type}

/-- The envelope of an event carries the row's columns; it is refused for a payload that is
not an object. The status is what the payload has. -/
def envelope (e : Event U) : Option (Option String) :=
  match e.payload.payload with
  | .object status => some status
  | .other => none

inductive Work where
  | flush
  | now (eventIds : List ℕ)
  deriving DecidableEq

/-- The work that has read its rows. -/
structure Batch (U : Type) where
  flush : Bool
  rest : List (Event U)
  /-- Unpublished rows that the limit has cut off. -/
  left : List (Event U)
  /-- The first of the rest is handed out and waits for its mark. -/
  handed : Bool
  deriving DecidableEq

inductive Entry (U : Type) where
  /-- A work has found these rows to publish. -/
  | read (found : List (Event U))
  | handed (e : Event U)
  | character (e : Event U) (kind : CharacterKind)
  | failed (e : Event U)
  /-- A flush has come to its end. -/
  | flushed
  /-- A crash, or a query that failed. -/
  | broke
  deriving DecidableEq

structure State (U : Type) where
  rows : List (Row U)
  running : Bool
  tail : List Work
  current : Option (Batch U)
  log : List (Entry U)
  deriving DecidableEq

def State.initial : State U := ⟨[], false, [], none, []⟩

def State.events (s : State U) : List (Event U) := s.rows.map (·.event)

def unpublished (rows : List (Row U)) : List (Event U) :=
  (rows.filter fun r => !r.published).map (·.event)

/-- An event as its caller appends it. -/
structure Draft (U : Type) where
  user : U
  id : ℕ
  eventType : String
  payload : Payload
  deriving DecidableEq

/-- How the call of `publish` ends: the gateway may throw at the event or at the character
event. -/
inductive Thrown where
  | nothing
  | event
  | character
  deriving DecidableEq

/-- How the update of `publishedAt` ends. -/
inductive Mark where
  | done
  | lost (applied : Bool)
  deriving DecidableEq

inductive Label (U : Type) where
  | commit (start : ℕ) (drafts : List (Draft U))
  | flush (isReady : Bool)
  | publishNow (eventIds : List ℕ) (isReady : Bool)
  /-- The first work of the chain reads its rows, which come in this order. -/
  | read (found : List (Event U))
  | readFailed
  | publish (thrown : Thrown)
  | mark (outcome : Mark)
  | finish
  | crash (applied : Bool)
  deriving DecidableEq

/-! ### The steps -/

section Steps

variable [DecidableEq U]

/-- `SyncService.append`. -/
def append (rows : List (Row U)) (start : ℕ) (x : Draft U) : List (Row U) :=
  rows ++ [⟨⟨x.user, latest (rows.map (·.event)) x.user + 1,
    ⟨x.id, x.eventType, start, x.payload⟩⟩, false⟩]

/-- The ids are those of no row and of no other draft. -/
def Fresh (rows : List (Row U)) (drafts : List (Draft U)) : Prop :=
  (drafts.map (·.id)).Nodup ∧ ∀ x ∈ drafts, ∀ r ∈ rows, r.event.payload.id ≠ x.id

instance (rows : List (Row U)) (drafts : List (Draft U)) : Decidable (Fresh rows drafts) :=
  inferInstanceAs (Decidable (_ ∧ _))

/-- The rows that a work selects. -/
def Work.select (rows : List (Row U)) : Work → List (Event U)
  | .flush => unpublished rows
  | .now eventIds => (unpublished rows).filter (·.payload.id ∈ eventIds)

/-- The `orderBy` of a work. -/
def Work.orderBy (e e' : Event U) : Work → Prop
  | .flush => e.payload.occurredAt ≤ e'.payload.occurredAt
  | .now _ => e.sequence ≤ e'.sequence

instance (e e' : Event U) : ∀ w : Work, Decidable (w.orderBy e e')
  | .flush => inferInstanceAs (Decidable (_ ≤ _))
  | .now _ => inferInstanceAs (Decidable (_ ≤ _))

def limit : ℕ := 100

def Work.batch (found : List (Event U)) : Work → Batch U
  | .flush => ⟨true, found.take limit, found.drop limit, false⟩
  | .now _ => ⟨false, found, [], false⟩

/-- `update … set publishedAt where id = … and publishedAt is null`. -/
def publishedAt (rows : List (Row U)) (id : ℕ) : List (Row U) :=
  rows.map fun r => if r.event.payload.id = id then { r with published := true } else r

/-- An error ends the work, and with it the flush. -/
def State.fail (s : State U) (b : Batch U) (e : Event U) : State U :=
  { s with current := none, running := s.running && !b.flush, log := .failed e :: s.log }

def characterEvent (e : Event U) (status : Option String) : List (Entry U) :=
  match characterKind e.payload.eventType status with
  | some kind => [.character e kind]
  | none => []

def State.hand (s : State U) (b : Batch U) (e : Event U) (status : Option String) : State U :=
  { s with
    current := some { b with handed := true }
    log := characterEvent e status ++ .handed e :: s.log }

/-- `publishRows` up to the update. -/
def State.publish (s : State U) (b : Batch U) (e : Event U) (thrown : Thrown) : State U :=
  match envelope e with
  | none => s.fail b e
  | some status =>
    match thrown with
    | .event => s.fail b e
    | .character => { s with log := .handed e :: s.log }.fail b e
    | .nothing => s.hand b e status

def State.mark (s : State U) (b : Batch U) (e : Event U) (rest : List (Event U)) :
    Mark → State U
  | .done => { s with
      rows := publishedAt s.rows e.payload.id
      current := some { b with rest, handed := false } }
  | .lost true => { s with rows := publishedAt s.rows e.payload.id }.fail b e
  | .lost false => s.fail b e

/-- The rows after a crash: an update that was under way may have been applied. -/
def State.crashed (s : State U) (applied : Bool) : List (Row U) :=
  match s.current with
  | some ⟨_, e :: _, _, true⟩ => if applied then publishedAt s.rows e.payload.id else s.rows
  | _ => s.rows

def State.step (s : State U) : Label U → Option (State U)
  | .commit start drafts =>
    if Fresh s.rows drafts then some { s with rows := drafts.foldl (append · start) s.rows }
    else none
  | .flush isReady =>
    if s.running ∨ !isReady then some s
    else some { s with running := true, tail := s.tail ++ [.flush] }
  | .publishNow eventIds isReady =>
    if eventIds = [] ∨ !isReady then some s
    else some { s with tail := s.tail ++ [.now eventIds] }
  | .read found =>
    match s.current, s.tail with
    | none, w :: tail =>
      if found.Perm (w.select s.rows) ∧ found.Pairwise fun e e' => w.orderBy e e' then
        some { s with tail, current := some (w.batch found), log := .read found :: s.log }
      else none
    | _, _ => none
  | .readFailed =>
    match s.current, s.tail with
    | none, w :: tail =>
      some { s with tail, running := s.running && w ≠ .flush, log := .broke :: s.log }
    | _, _ => none
  | .publish thrown =>
    match s.current with
    | some ⟨flush, e :: rest, left, false⟩ =>
      some (s.publish ⟨flush, e :: rest, left, false⟩ e thrown)
    | _ => none
  | .mark outcome =>
    match s.current with
    | some ⟨flush, e :: rest, left, true⟩ =>
      some (s.mark ⟨flush, e :: rest, left, true⟩ e rest outcome)
    | _ => none
  | .finish =>
    match s.current with
    | some ⟨true, [], _, _⟩ =>
      some { s with current := none, running := false, log := .flushed :: s.log }
    | some ⟨false, [], _, _⟩ => some { s with current := none }
    | _ => none
  | .crash applied =>
    some ⟨s.crashed applied, false, [], none, .broke :: s.log⟩

/-! ### When the publication works -/

/-- The order of the work is the order of the numbers, and it leaves out no event before one
that it takes. -/
def Work.Follows (rows : List (Row U)) : Work → Prop
  | .flush => ∀ e ∈ unpublished rows, ∀ e' ∈ unpublished rows, e.user = e'.user →
      e.sequence < e'.sequence → e.payload.occurredAt < e'.payload.occurredAt
  | .now eventIds => ∀ e ∈ unpublished rows, ∀ e' ∈ unpublished rows, e.user = e'.user →
      e.sequence < e'.sequence → e'.payload.id ∈ eventIds → e.payload.id ∈ eventIds

instance (rows : List (Row U)) : ∀ w : Work, Decidable (w.Follows rows)
  | .flush => inferInstanceAs (Decidable (∀ e ∈ unpublished rows, ∀ e' ∈ unpublished rows, _))
  | .now _ => inferInstanceAs (Decidable (∀ e ∈ unpublished rows, ∀ e' ∈ unpublished rows, _))

/-- No event of another user waits behind the one under way. -/
def State.Alone (s : State U) : Prop :=
  match s.current with
  | some ⟨_, e :: rest, left, _⟩ => ∀ e' ∈ rest ++ left, e'.user = e.user
  | _ => True

instance (s : State U) : Decidable s.Alone := by
  unfold State.Alone
  split <;> infer_instance

/-- The payload of the event under way is refused. -/
def State.Refused (s : State U) : Prop :=
  match s.current with
  | some ⟨_, e :: _, _, _⟩ => envelope e = none
  | _ => False

instance (s : State U) : Decidable s.Refused := by
  unfold State.Refused
  split <;> infer_instance

/-- A work reads its rows in the order of their numbers, and an event fails only with no event
of another user behind it. -/
def State.Orderly (s : State U) : Label U → Prop
  | .read _ => ∀ w ∈ s.tail.head?, w.Follows s.rows
  | .publish thrown => s.Refused ∨ thrown ≠ .nothing → s.Alone
  | .mark (.lost _) => s.Alone
  | _ => True

instance (s : State U) (l : Label U) : Decidable (s.Orderly l) := by
  unfold State.Orderly
  split <;> infer_instance

end Steps

/-! ### What the log says -/

/-- The events that have been handed out, the last one first. -/
def handedOut : List (Entry U) → List (Event U)
  | [] => []
  | .handed e :: log => e :: handedOut log
  | _ :: log => handedOut log

/-- Those handed out since the last crash or failure. -/
def since : List (Entry U) → List (Event U)
  | .handed e :: log => e :: since log
  | .failed _ :: _ | .broke :: _ | [] => []
  | _ :: log => since log

/-- The rows that the last work to read has found. -/
def found : List (Entry U) → List (Event U)
  | [] => []
  | .read found :: _ => found
  | _ :: log => found log

/-- The events handed out by that work. -/
def served : List (Entry U) → List (Event U)
  | .handed e :: log => e :: served log
  | .read _ :: _ | [] => []
  | _ :: log => served log

def InOrder (log : List (Entry U)) : Prop :=
  (handedOut log).Pairwise fun later earlier =>
    later.user = earlier.user → earlier.sequence ≤ later.sequence

instance [DecidableEq U] (log : List (Entry U)) : Decidable (InOrder log) :=
  inferInstanceAs (Decidable (List.Pairwise _ _))

/-- Wherever an event has failed, the work has handed out all events of other users. -/
def Isolated (log : List (Entry U)) : Prop :=
  ∀ newer e older, log = newer ++ .failed e :: older →
    ∀ e' ∈ found older, e'.user ≠ e.user → e' ∈ served older

/-- The flushes that have come to their end. -/
def flushes : List (Entry U) → ℕ
  | [] => 0
  | .flushed :: log => flushes log + 1
  | _ :: log => flushes log

/-- The rows that come no later than the event. -/
def upTo (e : Event U) (rows : List (Row U)) : List (Row U) :=
  rows.filter fun r => r.event.payload.occurredAt ≤ e.payload.occurredAt

/-- The events of each user are handed out in order, once unless there is a crash or a failure
between two times, and each after some flushes; and a failure keeps back no event of another
user. -/
structure State.Published [DecidableEq U] (s : State U) : Prop where
  order : InOrder s.log
  once : (since s.log).Nodup
  isolated : Isolated s.log
  delivered : ∀ r ∈ s.rows, r.published = true → r.event ∈ handedOut s.log
  reached : ∀ e ∈ s.events, ∀ ls s' k, Machine.run State.step s ls = some s' →
    (upTo e s'.rows).length ≤ limit * k → flushes s.log + k < flushes s'.log →
    e ∈ handedOut s'.log

end MouseKeeper.Server.Publication
