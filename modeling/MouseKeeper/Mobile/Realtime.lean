import MouseKeeper.Machine
import Mathlib.Data.List.Range
import Mathlib.Logic.Function.Basic

/-!
The sync cursor of the mobile app.

Live socket events and the paged replay both apply events of the account and both move one
stored cursor. Handlers wait for the database and the network in between, so any number of
them can be under way; each checks that its session is still the current one whenever it
goes on. A live event is presented after its cursor write. In a replay an event with a
complete projection is presented at once, and the others by one generic revision after the
cursor write of their page.
-/

namespace MouseKeeper.Mobile.Realtime

/-- The handler of a live event: its session, the sequence, and whether the cursor has been
moved and the event is about to be presented. -/
structure Live where
  generation : ℕ
  sequence : ℕ
  advanced : Bool
  deriving DecidableEq, Repr

/-- Where the replay of a session stands: the local cursor, the rest of the page, whether the
page was the last one, and the events that wait for the generic revision. -/
inductive Replay where
  | reading
  | fetching (cursor : ℕ)
  | page (cursor : ℕ) (rest : List ℕ) (last : Bool) (pending : List ℕ)
  | revising (cursor : ℕ) (last : Bool) (pending : List ℕ)
  deriving DecidableEq, Repr

structure World where
  /-- The account has the events `1, …, published`. -/
  published : ℕ
  cursor : Option ℕ
  applied : List ℕ
  generation : ℕ
  online : Bool
  lives : ℕ → Option Live
  replays : ℕ → Option Replay

def World.initial : World := ⟨0, none, [], 0, false, fun _ => none, fun _ => none⟩

/-- `lastSequence`, or 0 when there is no row. -/
def World.position (w : World) : ℕ := w.cursor.getD 0

inductive Label where
  | publish
  | connect
  | disconnect
  | kill
  | receive (i sequence : ℕ)
  | advance (i : ℕ)
  | present (i : ℕ)
  | startReplay
  | read (g : ℕ)
  | fetch (g : ℕ)
  | fetchFailed (g : ℕ)
  | event (g : ℕ)
  | store (g : ℕ)
  | revise (g : ℕ)
  deriving DecidableEq, Repr

def pageLimit : ℕ := 200

/-- The answer to `/v1/sync/events?after=…&limit=200`. -/
def World.eventsAfter (w : World) (after : ℕ) : List ℕ :=
  List.range' (after + 1) (min pageLimit (w.published - after))

def World.setLive (w : World) (i : ℕ) (t : Option Live) : World :=
  { w with lives := Function.update w.lives i t }

def World.setReplay (w : World) (g : ℕ) (r : Option Replay) : World :=
  { w with replays := Function.update w.replays g r }

/-- The transaction of `_advanceCursor`, for the current session. -/
def World.writeCursor (w : World) (sequence : ℕ) : World :=
  { w with cursor := some sequence }

/-- The stored cursor is already there. -/
def World.Reached (w : World) (sequence : ℕ) : Prop := ∃ c ∈ w.cursor, sequence ≤ c

instance (w : World) (sequence : ℕ) : Decidable (w.Reached sequence) :=
  inferInstanceAs (Decidable (∃ c ∈ w.cursor, sequence ≤ c))

/-- One step, if it is possible. `complete` says which events have a complete projection. -/
def World.step (complete : ℕ → Bool) (w : World) : Label → Option World
  | .publish => some { w with published := w.published + 1 }
  | .connect =>
    if w.online then none else some { w with generation := w.generation + 1, online := true }
  | .disconnect => some { w with generation := w.generation + 1, online := false }
  | .kill => some { w with
      generation := w.generation + 1
      online := false
      lives := fun _ => none
      replays := fun _ => none }
  | .receive i sequence =>
    if w.online ∧ w.lives i = none ∧ 0 < sequence ∧ sequence ≤ w.published then
      some (w.setLive i (some ⟨w.generation, sequence, false⟩))
    else none
  | .advance i =>
    match w.lives i with
    | some ⟨g, sequence, false⟩ =>
      if g ≠ w.generation ∨ w.Reached sequence then some (w.setLive i none)
      else some ((w.writeCursor sequence).setLive i (some ⟨g, sequence, true⟩))
    | _ => none
  | .present i =>
    match w.lives i with
    | some ⟨g, sequence, true⟩ =>
      if g ≠ w.generation then some (w.setLive i none)
      else some { w.setLive i none with applied := sequence :: w.applied }
    | _ => none
  | .startReplay =>
    if w.online ∧ w.replays w.generation = none then
      some (w.setReplay w.generation (some .reading))
    else none
  | .read g =>
    match w.replays g with
    | some .reading =>
      if g ≠ w.generation then some (w.setReplay g none)
      else some (w.setReplay g (some (.fetching w.position)))
    | _ => none
  | .fetch g =>
    match w.replays g with
    | some (.fetching c) =>
      let events := w.eventsAfter c
      if g ≠ w.generation ∨ events = [] then some (w.setReplay g none)
      else some (w.setReplay g (some (.page c events (events.length < pageLimit) [])))
    | _ => none
  | .fetchFailed g =>
    match w.replays g with
    | some (.fetching _) => some (w.setReplay g none)
    | _ => none
  | .event g =>
    match w.replays g with
    | some (.page c (x :: rest) last pending) =>
      if g ≠ w.generation then some (w.setReplay g none)
      else if complete x then
        some { w.setReplay g (some (.page (max c x) rest last pending)) with
          applied := x :: w.applied }
      else some (w.setReplay g (some (.page (max c x) rest last (x :: pending))))
    | _ => none
  | .store g =>
    match w.replays g with
    | some (.page c [] last pending) =>
      if g ≠ w.generation then some (w.setReplay g none)
      else if w.Reached c then some (w.setReplay g (some (.revising c last pending)))
      else some ((w.writeCursor c).setReplay g (some (.revising c last pending)))
    | _ => none
  | .revise g =>
    match w.replays g with
    | some (.revising c last pending) =>
      if g ≠ w.generation then some (w.setReplay g none)
      else some { w.setReplay g (if last then none else some (.fetching c)) with
        applied := pending ++ w.applied }
    | _ => none

/-- The events that a replay will present with its generic revision. -/
def Replay.pending : Replay → List ℕ
  | .page _ _ _ pending => pending
  | .revising _ _ pending => pending
  | _ => []

/-- A handler of the current session has the event in hand: it has moved the cursor for it,
or it will present it with its page. -/
def World.InHand (w : World) (k : ℕ) : Prop :=
  (∃ i, w.lives i = some ⟨w.generation, k, true⟩) ∨
    ∃ r, w.replays w.generation = some r ∧ k ∈ r.pending

/-- The event is applied, or will be unless the session ends. -/
def World.Covered (w : World) (k : ℕ) : Prop := k ∈ w.applied ∨ w.InHand k

/-- A live event moves the cursor only over events that are covered, and a session ends only
while no handler has moved the cursor for an event that it still has to present. -/
def World.Clear (w : World) : Label → Prop
  | .advance i => ∀ sequence, w.lives i = some ⟨w.generation, sequence, false⟩ →
      ∀ k, w.position < k → k < sequence → w.Covered k
  | .connect | .disconnect | .kill => ∀ k, k ≤ w.position → w.InHand k → k ∈ w.applied
  | _ => True

end MouseKeeper.Mobile.Realtime
