import MouseKeeper.Alone
import MouseKeeper.KeyedTable
import MouseKeeper.Machine

/-!
Drafts that have run out.

Whoever confirms or previews a draft that has run out is told that it is expired. The status is
written in the transaction that is refused with this answer, and so it is not stored. What is
pending is shown and counted by the stored status.
-/

namespace MouseKeeper.Chat.ExpiredDrafts

open ReadCommitted (Txn)
open Machine (run Meets Throughout)

/-! ### Tables -/

inductive DraftStatus
  | draft | rejected | expired | materialized
  deriving DecidableEq

def DraftStatus.text : DraftStatus → String
  | .draft => "DRAFT"
  | .rejected => "REJECTED"
  | .expired => "EXPIRED"
  | .materialized => "MATERIALIZED"

structure Room where
  id : String
  userId : String
  active : Bool

structure ChatSession where
  id : String
  userId : String
  roomId : String
  active : Bool

structure CommandDraft where
  id : String
  sessionId : String
  createdByUserId : String
  status : DraftStatus
  commandId : Option String
  fileBrowseRequestId : Option String
  fileTransferId : Option String
  confirmIdempotencyKey : Option String
  expiresAt : ℕ
  deriving DecidableEq

structure RuleDraft where
  id : String
  sessionId : Option String
  roomId : String
  createdByUserId : String
  status : DraftStatus
  ruleId : Option String
  confirmIdempotencyKey : Option String
  expiresAt : ℕ
  deriving DecidableEq

inductive MessageType
  | commandDraft | ruleDraft | proposal | other
  deriving DecidableEq

/-- A message, with the id and the status in its payload. -/
structure ChatMessage where
  id : String
  roomId : String
  sessionId : Option String
  assistant : Bool
  messageType : MessageType
  summary : Option (String × String)
  createdAt : ℕ

/-- What changes besides the drafts. -/
structure Surroundings where
  rooms : List Room
  sessions : List ChatSession
  messages : List ChatMessage
  /-- The proposals, by id, with their statuses. -/
  proposals : List (String × String)

structure Db where
  around : Surroundings
  commandDrafts : Table CommandDraft.id
  ruleDrafts : Table RuleDraft.id

/-! ### Writes -/

def Db.setCommandDraft (d : Db) (row : CommandDraft) : Db :=
  { d with
    commandDrafts := d.commandDrafts.modify (·.id = row.id) (fun r => { row with id := r.id })
      fun _ => rfl }

def Db.setRuleDraft (d : Db) (row : RuleDraft) : Db :=
  { d with
    ruleDrafts := d.ruleDrafts.modify (·.id = row.id) (fun r => { row with id := r.id })
      fun _ => rfl }

/-! ### Requests -/

inductive ChatError
  | notFound
  | conflict
  | idempotencyConflict
  | invalidStateTransition (status : DraftStatus) (target : String)
  | commandDraftExpired (draft : CommandDraft)
  | ruleDraftExpired (draft : RuleDraft)
  | previewUnconfigured (draft : RuleDraft)
  /-- The other codes that a confirmation ends with. -/
  | refused (code : String)

/-- What a confirmed command draft has become. -/
inductive Artifact
  | command (id : String)
  | fileBrowseRequest (id : String)
  | fileTransfer (id : String)

/-- What the other tables say, and what comes of the rest of a confirmation. -/
structure Elsewhere where
  /-- The idempotency key of a command. -/
  commandKey : String → Option String
  hasBrowseRequest : String → Bool
  hasTransfer : String → Bool
  hasRule : String → Bool
  keyTaken : Bool
  /-- What is made of a command draft, or the code that it is refused with. -/
  artifact : Except String Artifact
  ruleId : String

variable (e : Elsewhere) (now : ℕ) (userId : String)

abbrev Program := Txn Db String ChatError

def refuse {R : Type} (error : ChatError) : Program R := .answer (.error error)

def Db.ownsRoom (d : Db) (roomId : String) : Bool :=
  d.around.rooms.any fun r => r.id = roomId ∧ r.userId = userId ∧ r.active

def Db.ownsSession (d : Db) (sessionId : String) : Bool :=
  d.around.sessions.any fun s => s.id = sessionId ∧ s.userId = userId ∧ s.active ∧
    d.ownsRoom userId s.roomId

/-- `requireOwnedDraftIn` of the chat. -/
def Db.ownedCommandDraft (d : Db) (draftId : String) : Option CommandDraft :=
  d.commandDrafts.rows.find? fun c => c.id = draftId ∧ c.createdByUserId = userId ∧
    d.ownsSession userId c.sessionId

/-- `requireOwnedDraftIn` of the rules. -/
def Db.ownedRuleDraft (d : Db) (draftId : String) : Option RuleDraft :=
  d.ruleDrafts.rows.find? fun r => r.id = draftId ∧ r.createdByUserId = userId ∧ d.ownsRoom userId r.roomId

/-- The answer for a draft that has become something already. -/
def CommandDraft.materialized (draft : CommandDraft) (key : String) :
    Option (Except ChatError CommandDraft) :=
  if draft.status ≠ .materialized then none
  else
    match draft.commandId, draft.fileBrowseRequestId, draft.fileTransferId with
    | some id, _, _ => some (
      match e.commandKey id with
      | none => .error .conflict
      | some used => if used = key then .ok draft else .error .idempotencyConflict)
    | none, some id, _ => some (
      if draft.confirmIdempotencyKey ≠ some key then .error .idempotencyConflict
      else if e.hasBrowseRequest id then .ok draft else .error .conflict)
    | none, none, some id => some (
      if draft.confirmIdempotencyKey ≠ some key then .error .idempotencyConflict
      else if e.hasTransfer id then .ok draft else .error .conflict)
    | none, none, none => none

def CommandDraft.become (draft : CommandDraft) (key : String) : Artifact → CommandDraft
  | .command id =>
    { draft with status := .materialized, commandId := some id, confirmIdempotencyKey := some key }
  | .fileBrowseRequest id =>
    { draft with
      status := .materialized, fileBrowseRequestId := some id, confirmIdempotencyKey := some key }
  | .fileTransfer id =>
    { draft with
      status := .materialized, fileTransferId := some id, confirmIdempotencyKey := some key }

/-- The draft is expired, or has run out and is written as expired; then the request is refused. -/
def expireCommandDraft (draft : CommandDraft) : Program CommandDraft :=
  if draft.status = .expired then refuse (.commandDraftExpired draft)
  else
    .write (fun _ => [draft.id]) (fun _ d => d.setCommandDraft { draft with status := .expired })
      (refuse (.commandDraftExpired { draft with status := .expired }))

def confirmCommandDraft (draftId key : String) : Program CommandDraft :=
  .lock (fun _ => [draftId]) fun d =>
    match d.ownedCommandDraft userId draftId with
    | none => refuse .notFound
    | some draft =>
      match draft.materialized e key with
      | some answer => .answer answer
      | none =>
        if draft.status = .rejected then
          refuse (.invalidStateTransition draft.status "MATERIALIZED")
        else if draft.status = .expired ∨ draft.expiresAt ≤ now then expireCommandDraft draft
        else if draft.status ≠ .draft then
          refuse (.invalidStateTransition draft.status "MATERIALIZED")
        else if e.keyTaken then refuse .idempotencyConflict
        else
          match e.artifact with
          | .error code => refuse (.refused code)
          | .ok artifact =>
            .write (fun _ => [draftId]) (fun _ d => d.setCommandDraft (draft.become key artifact))
              (.answer (.ok (draft.become key artifact)))

def rejectCommandDraft (draftId : String) : Program CommandDraft :=
  .lock (fun _ => [draftId]) fun d =>
    match d.ownedCommandDraft userId draftId with
    | none => refuse .notFound
    | some draft =>
      if draft.status = .rejected then .answer (.ok draft)
      else if draft.status = .materialized then
        refuse (.invalidStateTransition draft.status "REJECTED")
      else
        let updated := { draft with status := if draft.expiresAt ≤ now then .expired else .rejected }
        .write (fun _ => [draftId]) (fun _ d => d.setCommandDraft updated) (.answer (.ok updated))

def expireRuleDraft (draft : RuleDraft) : Program RuleDraft :=
  if draft.status = .expired then refuse (.ruleDraftExpired draft)
  else
    .write (fun _ => [draft.id]) (fun _ d => d.setRuleDraft { draft with status := .expired })
      (refuse (.ruleDraftExpired { draft with status := .expired }))

def previewDraft (draftId : String) : Program RuleDraft :=
  .lock (fun _ => [draftId]) fun d =>
    match d.ownedRuleDraft userId draftId with
    | none => refuse .notFound
    | some draft =>
      if draft.status = .expired ∨ draft.expiresAt ≤ now then expireRuleDraft draft
      else if draft.status ≠ .draft then refuse (.invalidStateTransition draft.status "PREVIEW")
      else refuse (.previewUnconfigured draft)

/-- The answer for a draft that has become a rule already. -/
def RuleDraft.materialized (draft : RuleDraft) (key : String) :
    Option (Except ChatError RuleDraft) :=
  if draft.status ≠ .materialized then none
  else
    draft.ruleId.map fun ruleId =>
      if draft.confirmIdempotencyKey ≠ some key then .error .idempotencyConflict
      else if e.hasRule ruleId then .ok draft else .error .conflict

def confirmDraft (draftId key : String) : Program RuleDraft :=
  .lock (fun _ => [draftId]) fun d =>
    match d.ownedRuleDraft userId draftId with
    | none => refuse .notFound
    | some draft =>
      match draft.materialized e key with
      | some answer => .answer answer
      | none =>
        if draft.status = .rejected then
          refuse (.invalidStateTransition draft.status "MATERIALIZED")
        else if draft.status = .expired ∨ draft.expiresAt ≤ now then expireRuleDraft draft
        else if draft.status ≠ .draft then
          refuse (.invalidStateTransition draft.status "MATERIALIZED")
        else if d.ruleDrafts.rows.any fun r => r.createdByUserId = userId ∧
            r.confirmIdempotencyKey = some key ∧ r.id ≠ draft.id then refuse .idempotencyConflict
        else
          let updated := { draft with
            status := .materialized, ruleId := some e.ruleId, confirmIdempotencyKey := some key }
          .write (fun _ => [draftId]) (fun _ d => d.setRuleDraft updated) (.answer (.ok updated))

def rejectDraft (draftId : String) : Program RuleDraft :=
  .lock (fun _ => [draftId]) fun d =>
    match d.ownedRuleDraft userId draftId with
    | none => refuse .notFound
    | some draft =>
      if draft.status = .rejected then .answer (.ok draft)
      else if draft.status = .materialized then
        refuse (.invalidStateTransition draft.status "REJECTED")
      else
        let updated := { draft with status := if draft.expiresAt ≤ now then .expired else .rejected }
        .write (fun _ => [draftId]) (fun _ d => d.setRuleDraft updated) (.answer (.ok updated))

/-! ### What is pending -/

/-- A draft of one of the two tables. -/
inductive DraftRef
  | command (id : String)
  | rule (id : String)
  deriving DecidableEq

def Db.status (d : Db) : DraftRef → Option DraftStatus
  | .command id => (d.commandDrafts.find id).map (·.status)
  | .rule id => (d.ruleDrafts.find id).map (·.status)

/-- The draft that a message is about. -/
def ChatMessage.draft (m : ChatMessage) : Option DraftRef :=
  match m.messageType with
  | .commandDraft => m.summary.map fun x => .command x.1
  | .ruleDraft => m.summary.map fun x => .rule x.1
  | _ => none

/-- The message with the status as it is now. -/
def Db.hydrate (d : Db) (m : ChatMessage) : ChatMessage :=
  match m.summary with
  | none => m
  | some (id, status) =>
    let live : Option String :=
      match m.messageType with
      | .commandDraft => (d.commandDrafts.find id).map (·.status.text)
      | .ruleDraft => (d.ruleDrafts.find id).map (·.status.text)
      | .proposal => d.around.proposals.lookup id
      | .other => none
    { m with summary := some (id, live.getD status) }

def Db.hydrateMessages (d : Db) (rows : List ChatMessage) : List ChatMessage := rows.map d.hydrate

def pendingStatusByType : MessageType → Option String
  | .commandDraft | .ruleDraft => some "DRAFT"
  | .proposal => some "OPEN"
  | .other => none

def ChatMessage.pending (m : ChatMessage) : Bool :=
  match m.summary, pendingStatusByType m.messageType with
  | some (_, status), some pending => status = pending
  | _, _ => false

/-- `orderBy(desc(createdAt), desc(id))`. -/
def newestFirst (rows : List ChatMessage) : List ChatMessage :=
  rows.mergeSort fun a b => b.createdAt < a.createdAt ∨ b.createdAt = a.createdAt ∧ b.id ≤ a.id

/-- The messages that are suggested. -/
def Db.quickPendingSuggestions (d : Db) (roomId : String) : List ChatMessage :=
  let rows := d.around.messages.filter fun m => m.roomId = roomId ∧ m.assistant ∧
    m.messageType ≠ .other ∧ m.sessionId.any fun id => d.around.sessions.any fun s =>
      s.id = id ∧ s.userId = userId ∧ s.roomId = roomId ∧ s.active
  ((d.hydrateMessages ((newestFirst rows).take 24)).filter (·.pending)).take 12

def Db.pendingActionCount (d : Db) (sessionId : String) : ℕ :=
  d.commandDrafts.rows.countP (fun c => c.sessionId = sessionId ∧ c.status = .draft) +
    d.ruleDrafts.rows.countP fun r => r.sessionId = some sessionId ∧ r.status = .draft

/-! ### Runs -/

/-- The database, the time, the drafts that somebody has been told are expired, and the one that the
last answer was about. -/
structure World where
  db : Db
  now : ℕ
  told : List DraftRef
  last : Option DraftRef

def World.start (db : Db) (now : ℕ) : World := ⟨db, now, [], none⟩

inductive Step
  | tick (elapsed : ℕ)
  /-- Other tables change. -/
  | elsewhere (around : Surroundings)
  | createCommandDraft (draft : CommandDraft)
  | createDraft (draft : RuleDraft)
  | confirmCommandDraft (e : Elsewhere) (userId draftId key : String)
  | rejectCommandDraft (userId draftId : String)
  | previewDraft (userId draftId : String)
  | confirmDraft (e : Elsewhere) (userId draftId key : String)
  | rejectDraft (userId draftId : String)

/-- A row with a new id, as it is inserted. -/
def Db.insertCommandDraft (d : Db) (draft : CommandDraft) : Db :=
  match d.commandDrafts.insert { draft with status := .draft } with
  | some commandDrafts => { d with commandDrafts }
  | none => d

def Db.insertRuleDraft (d : Db) (draft : RuleDraft) : Db :=
  match d.ruleDrafts.insert { draft with status := .draft } with
  | some ruleDrafts => { d with ruleDrafts }
  | none => d

/-- The draft that an answer says is expired. -/
def toldExpired {R : Type} : Except ChatError R → Option DraftRef
  | .error (.commandDraftExpired draft) =>
    if draft.status = .expired then some (.command draft.id) else none
  | .error (.ruleDraftExpired draft) =>
    if draft.status = .expired then some (.rule draft.id) else none
  | _ => none

/-- A request is served, and what it is told is remembered. -/
def World.serve {R : Type} (w : World) (t : Program R) : World :=
  let last := toldExpired (t.eval w.db).1
  { w with db := t.served w.db, told := last.toList ++ w.told, last }

def next (w : World) : Step → World
  | .tick elapsed => { w with now := w.now + elapsed, last := none }
  | .elsewhere around => { w with db := { w.db with around }, last := none }
  | .createCommandDraft draft => { w with db := w.db.insertCommandDraft draft, last := none }
  | .createDraft draft => { w with db := w.db.insertRuleDraft draft, last := none }
  | .confirmCommandDraft e userId draftId key =>
    w.serve (confirmCommandDraft e w.now userId draftId key)
  | .rejectCommandDraft userId draftId => w.serve (rejectCommandDraft w.now userId draftId)
  | .previewDraft userId draftId => w.serve (previewDraft w.now userId draftId)
  | .confirmDraft e userId draftId key => w.serve (confirmDraft e w.now userId draftId key)
  | .rejectDraft userId draftId => w.serve (rejectDraft w.now userId draftId)

def step (w : World) (l : Step) : Option World := some (next w l)

/-! ### What must hold -/

/-- The rows without the draft. -/
def Db.pendingActionCountWithout (d : Db) (draft : DraftRef) (sessionId : String) : ℕ :=
  (d.commandDrafts.rows.filter fun c => .command c.id ≠ draft).countP
      (fun c => c.sessionId = sessionId ∧ c.status = .draft) +
    (d.ruleDrafts.rows.filter fun r => .rule r.id ≠ draft).countP
      fun r => r.sessionId = some sessionId ∧ r.status = .draft

/-- Nowhere is the draft shown or counted as one that is pending. -/
structure NotPending (d : Db) (draft : DraftRef) : Prop where
  hydrated : ∀ rows, ∀ m ∈ d.hydrateMessages rows, m.draft = some draft → m.pending = false
  suggested : ∀ userId roomId, ∀ m ∈ d.quickPendingSuggestions userId roomId, m.draft ≠ some draft
  counted : ∀ sessionId, d.pendingActionCount sessionId = d.pendingActionCountWithout draft sessionId

/-- What the last answer says is expired is stored so, and nothing that somebody has been told is
expired is pending. -/
structure Truthful (w : World) : Prop where
  stored : ∀ draft ∈ w.last, w.db.status draft = some .expired
  settled : ∀ draft ∈ w.told, NotPending w.db draft

/-- A draft that is confirmed or previewed has not run out, or is stored as expired, or is answered
for otherwise before that matters. -/
def InTime (w : World) : Step → Prop
  | .confirmCommandDraft e userId draftId key => ∀ draft ∈ w.db.ownedCommandDraft userId draftId,
    draft.materialized e key = none → draft.status ≠ .rejected →
      draft.status = .expired ∨ w.now < draft.expiresAt
  | .previewDraft userId draftId => ∀ draft ∈ w.db.ownedRuleDraft userId draftId,
    draft.status = .expired ∨ w.now < draft.expiresAt
  | .confirmDraft e userId draftId key => ∀ draft ∈ w.db.ownedRuleDraft userId draftId,
    draft.materialized e key = none → draft.status ≠ .rejected →
      draft.status = .expired ∨ w.now < draft.expiresAt
  | _ => True

variable {e now userId} {d d' : Db} {draftId key : String} {ref : DraftRef}

/-! ### Statuses -/

lemma status_command (d : Db) (id : String) :
    d.status (.command id) = (d.commandDrafts.find id).map (·.status) :=
  rfl

lemma status_rule (d : Db) (id : String) :
    d.status (.rule id) = (d.ruleDrafts.find id).map (·.status) :=
  rfl

lemma status_of_mem_command {draft : CommandDraft} (h : draft ∈ d.commandDrafts.rows) :
    d.status (.command draft.id) = some draft.status := by
  rw [status_command, Table.find_of_mem h]
  rfl

lemma status_of_mem_rule {draft : RuleDraft} (h : draft ∈ d.ruleDrafts.rows) :
    d.status (.rule draft.id) = some draft.status := by
  rw [status_rule, Table.find_of_mem h]
  rfl

/-- The draft is expired or rejected, and will not become anything else. -/
def Settled (d : Db) (ref : DraftRef) : Prop :=
  d.status ref = some .expired ∨ d.status ref = some .rejected

lemma settled_command_iff {id : String} : Settled d (.command id) ↔
    ∃ r, d.commandDrafts.find id = some r ∧ (r.status = .expired ∨ r.status = .rejected) := by
  change d.status (.command id) = _ ∨ d.status (.command id) = _ ↔ _
  rw [status_command]
  cases d.commandDrafts.find id with
  | none => simp
  | some r => simp

lemma settled_rule_iff {id : String} : Settled d (.rule id) ↔
    ∃ r, d.ruleDrafts.find id = some r ∧ (r.status = .expired ∨ r.status = .rejected) := by
  change d.status (.rule id) = _ ∨ d.status (.rule id) = _ ↔ _
  rw [status_rule]
  cases d.ruleDrafts.find id with
  | none => simp
  | some r => simp

/-- A draft that is settled stays so, where a settled row is replaced by a settled one. -/
lemma settled_setCommandDraft {row : CommandDraft} (h : Settled d ref)
    (hrow : Settled d (.command row.id) → row.status = .expired ∨ row.status = .rejected) :
    Settled (d.setCommandDraft row) ref := by
  cases ref with
  | rule id => exact h
  | command id =>
    obtain ⟨r, hr, hs⟩ := settled_command_iff.mp h
    have hfind : (d.setCommandDraft row).commandDrafts.find id =
        some (if r.id = row.id then { row with id := r.id } else r) := by
      rw [Db.setCommandDraft, Table.find_modify, hr]
      simp
    refine settled_command_iff.mpr ⟨_, hfind, ?_⟩
    by_cases hid : r.id = row.id
    · rw [if_pos hid]
      exact hrow (hid ▸ (Table.mem_of_find hr).2 ▸ h)
    · rw [if_neg hid]
      exact hs

lemma settled_setRuleDraft {row : RuleDraft} (h : Settled d ref)
    (hrow : Settled d (.rule row.id) → row.status = .expired ∨ row.status = .rejected) :
    Settled (d.setRuleDraft row) ref := by
  cases ref with
  | command id => exact h
  | rule id =>
    obtain ⟨r, hr, hs⟩ := settled_rule_iff.mp h
    have hfind : (d.setRuleDraft row).ruleDrafts.find id =
        some (if r.id = row.id then { row with id := r.id } else r) := by
      rw [Db.setRuleDraft, Table.find_modify, hr]
      simp
    refine settled_rule_iff.mpr ⟨_, hfind, ?_⟩
    by_cases hid : r.id = row.id
    · rw [if_pos hid]
      exact hrow (hid ▸ (Table.mem_of_find hr).2 ▸ h)
    · rw [if_neg hid]
      exact hs

lemma settled_insertCommandDraft {row : CommandDraft} (h : Settled d ref) :
    Settled (d.insertCommandDraft row) ref := by
  unfold Db.insertCommandDraft
  split
  · rename_i commandDrafts hinsert
    cases ref with
    | rule id => exact h
    | command id =>
      obtain ⟨r, hr, hs⟩ := settled_command_iff.mp h
      exact settled_command_iff.mpr ⟨r, Table.find_insert hinsert hr, hs⟩
  · exact h

lemma settled_insertRuleDraft {row : RuleDraft} (h : Settled d ref) :
    Settled (d.insertRuleDraft row) ref := by
  unfold Db.insertRuleDraft
  split
  · rename_i ruleDrafts hinsert
    cases ref with
    | command id => exact h
    | rule id =>
      obtain ⟨r, hr, hs⟩ := settled_rule_iff.mp h
      exact settled_rule_iff.mpr ⟨r, Table.find_insert hinsert hr, hs⟩
  · exact h

/-! ### Readers -/

/-- A message about a draft that is settled is brought up to date. -/
lemma pending_hydrate {m : ChatMessage} (h : Settled d ref) (hm : (d.hydrate m).draft = some ref) :
    (d.hydrate m).pending = false := by
  obtain ⟨id, roomId, sessionId, assistant, messageType, summary, createdAt⟩ := m
  cases summary with
  | none => simp [Db.hydrate, ChatMessage.pending]
  | some x =>
    cases messageType with
    | commandDraft =>
      obtain rfl : DraftRef.command x.1 = ref := Option.some.inj hm
      obtain ⟨r, hr, hs⟩ := settled_command_iff.mp h
      rcases hs with hs | hs <;>
        simp [Db.hydrate, ChatMessage.pending, pendingStatusByType, hr, hs, DraftStatus.text]
    | ruleDraft =>
      obtain rfl : DraftRef.rule x.1 = ref := Option.some.inj hm
      obtain ⟨r, hr, hs⟩ := settled_rule_iff.mp h
      rcases hs with hs | hs <;>
        simp [Db.hydrate, ChatMessage.pending, pendingStatusByType, hr, hs, DraftStatus.text]
    | proposal => exact absurd hm (Option.some_ne_none _).symm
    | other => exact absurd hm (Option.some_ne_none _).symm

lemma not_draft_of_settled_command {r : CommandDraft} (h : Settled d (.command r.id))
    (hr : r ∈ d.commandDrafts.rows) : r.status ≠ .draft := by
  rw [Settled, status_of_mem_command hr] at h
  rintro hs
  simp [hs] at h

lemma not_draft_of_settled_rule {r : RuleDraft} (h : Settled d (.rule r.id))
    (hr : r ∈ d.ruleDrafts.rows) : r.status ≠ .draft := by
  rw [Settled, status_of_mem_rule hr] at h
  rintro hs
  simp [hs] at h

/-- Rows that do not count need not be there. -/
lemma countP_filter_of {α : Type} {p q : α → Bool} {l : List α}
    (h : ∀ x ∈ l, q x = true → p x = true) : (l.filter p).countP q = l.countP q := by
  rw [List.countP_filter]
  refine List.countP_congr fun x hx => ?_
  simpa using h x hx

/-- **What is settled is not pending.** -/
lemma notPending_of_settled (h : Settled d ref) : NotPending d ref where
  hydrated rows m hm href := by
    obtain ⟨m₀, -, rfl⟩ := List.mem_map.mp hm
    exact pending_hydrate h href
  suggested userId roomId m hm href := by
    obtain ⟨hm, hpending⟩ := List.mem_filter.mp (List.mem_of_mem_take hm)
    obtain ⟨m₀, -, rfl⟩ := List.mem_map.mp hm
    rw [pending_hydrate h href] at hpending
    exact Bool.false_ne_true hpending
  counted sessionId := by
    rw [Db.pendingActionCount, Db.pendingActionCountWithout]
    congr 1
    · refine (countP_filter_of fun c hc hcount => ?_).symm
      refine decide_eq_true fun hid => ?_
      exact not_draft_of_settled_command (hid ▸ h) hc (of_decide_eq_true hcount).2
    · refine (countP_filter_of fun r hr hcount => ?_).symm
      refine decide_eq_true fun hid => ?_
      exact not_draft_of_settled_rule (hid ▸ h) hr (of_decide_eq_true hcount).2

/-- What holds between the steps. -/
structure Inv (w : World) : Prop where
  stored : ∀ draft ∈ w.last, w.db.status draft = some .expired
  settled : ∀ draft ∈ w.told, Settled w.db draft

lemma Inv.truthful {w : World} (h : Inv w) : Truthful w :=
  ⟨h.stored, fun draft hd => notPending_of_settled (h.settled draft hd)⟩

/-! ### Answers -/

lemma eval_expireCommandDraft (draft : CommandDraft) :
    ((expireCommandDraft draft).eval d).1 =
      .error (.commandDraftExpired { draft with status := .expired }) := by
  rw [expireCommandDraft]
  split_ifs with h
  · rw [← h]
    rfl
  · rfl

lemma eval_expireRuleDraft (draft : RuleDraft) :
    ((expireRuleDraft draft).eval d).1 =
      .error (.ruleDraftExpired { draft with status := .expired }) := by
  rw [expireRuleDraft]
  split_ifs with h
  · rw [← h]
    rfl
  · rfl

lemma toldExpired_commandDraft_materialized {draft : CommandDraft}
    {answer : Except ChatError CommandDraft} (h : draft.materialized e key = some answer) :
    toldExpired answer = none := by
  unfold CommandDraft.materialized at h
  split at h
  · exact absurd h.symm (Option.some_ne_none _)
  · split at h
    · rw [← Option.some.inj h]
      split
      · rfl
      · split_ifs <;> rfl
    · rw [← Option.some.inj h]
      split_ifs <;> rfl
    · rw [← Option.some.inj h]
      split_ifs <;> rfl
    · exact absurd h.symm (Option.some_ne_none _)

lemma toldExpired_ruleDraft_materialized {draft : RuleDraft}
    {answer : Except ChatError RuleDraft} (h : draft.materialized e key = some answer) :
    toldExpired answer = none := by
  unfold RuleDraft.materialized at h
  split at h
  · exact absurd h.symm (Option.some_ne_none _)
  · obtain ⟨ruleId, -, rfl⟩ := Option.map_eq_some_iff.mp h
    split_ifs <;> rfl

/-- **When a confirmation tells that the draft is expired.** -/
lemma told_confirmCommandDraft :
    toldExpired ((confirmCommandDraft e now userId draftId key).eval d).1 = some ref ↔
      ∃ draft, d.ownedCommandDraft userId draftId = some draft ∧
        draft.materialized e key = none ∧ draft.status ≠ .rejected ∧
        (draft.status = .expired ∨ draft.expiresAt ≤ now) ∧ ref = .command draft.id := by
  rw [confirmCommandDraft, Txn.eval_lock]
  cases hown : d.ownedCommandDraft userId draftId with
  | none => simp [refuse, Txn.eval, toldExpired]
  | some draft =>
    simp only [Option.some.injEq, exists_eq_left']
    cases hmat : draft.materialized e key with
    | some answer => simp [Txn.eval, toldExpired_commandDraft_materialized hmat]
    | none =>
      dsimp only
      split_ifs with hrejected hexpired hdraft hkey
      · simp [refuse, Txn.eval, toldExpired, hrejected]
      · rw [eval_expireCommandDraft]
        simp [toldExpired, hrejected, hexpired, @eq_comm _ ref]
      · simp [refuse, Txn.eval, toldExpired, hexpired]
      · simp [refuse, Txn.eval, toldExpired, hexpired]
      · cases e.artifact with
        | error code => simp [refuse, Txn.eval, toldExpired, hexpired]
        | ok artifact => simp [Txn.write, Txn.eval, toldExpired, hexpired]

lemma told_previewDraft :
    toldExpired ((previewDraft now userId draftId).eval d).1 = some ref ↔
      ∃ draft, d.ownedRuleDraft userId draftId = some draft ∧
        (draft.status = .expired ∨ draft.expiresAt ≤ now) ∧ ref = .rule draft.id := by
  rw [previewDraft, Txn.eval_lock]
  cases hown : d.ownedRuleDraft userId draftId with
  | none => simp [refuse, Txn.eval, toldExpired]
  | some draft =>
    simp only [Option.some.injEq, exists_eq_left']
    split_ifs with hexpired hdraft
    · rw [eval_expireRuleDraft]
      simp [toldExpired, hexpired, @eq_comm _ ref]
    · simp [refuse, Txn.eval, toldExpired, hexpired]
    · simp [refuse, Txn.eval, toldExpired, hexpired]

lemma told_confirmDraft :
    toldExpired ((confirmDraft e now userId draftId key).eval d).1 = some ref ↔
      ∃ draft, d.ownedRuleDraft userId draftId = some draft ∧
        draft.materialized e key = none ∧ draft.status ≠ .rejected ∧
        (draft.status = .expired ∨ draft.expiresAt ≤ now) ∧ ref = .rule draft.id := by
  rw [confirmDraft, Txn.eval_lock]
  cases hown : d.ownedRuleDraft userId draftId with
  | none => simp [refuse, Txn.eval, toldExpired]
  | some draft =>
    simp only [Option.some.injEq, exists_eq_left']
    cases hmat : draft.materialized e key with
    | some answer => simp [Txn.eval, toldExpired_ruleDraft_materialized hmat]
    | none =>
      dsimp only
      split_ifs with hrejected hexpired hdraft hkey
      · simp [refuse, Txn.eval, toldExpired, hrejected]
      · rw [eval_expireRuleDraft]
        simp [toldExpired, hrejected, hexpired, @eq_comm _ ref]
      · simp [refuse, Txn.eval, toldExpired, hexpired]
      · simp [refuse, Txn.eval, toldExpired, hexpired]
      · simp [Txn.write, Txn.eval, toldExpired, hexpired]

/-- A rejection answers with the draft. -/
lemma told_rejectCommandDraft :
    toldExpired ((rejectCommandDraft now userId draftId).eval d).1 = none := by
  rw [rejectCommandDraft, Txn.eval_lock]
  cases d.ownedCommandDraft userId draftId with
  | none => rfl
  | some draft =>
    dsimp only
    split_ifs <;> rfl

lemma told_rejectDraft : toldExpired ((rejectDraft now userId draftId).eval d).1 = none := by
  rw [rejectDraft, Txn.eval_lock]
  cases d.ownedRuleDraft userId draftId with
  | none => rfl
  | some draft =>
    dsimp only
    split_ifs <;> rfl

/-- **Who is told that a draft is expired has been refused**, and nothing is stored. -/
lemma served_of_told {R : Type} {t : Program R} (h : toldExpired (t.eval d).1 = some ref) :
    t.served d = d := by
  rw [Txn.served]
  split
  · next he =>
    rw [he] at h
    exact absurd h.symm (Option.some_ne_none _)
  · rfl

/-! ### Writes -/

lemma mem_of_ownedCommandDraft {draft : CommandDraft}
    (h : d.ownedCommandDraft userId draftId = some draft) : draft ∈ d.commandDrafts.rows :=
  List.mem_of_find?_eq_some h

lemma mem_of_ownedRuleDraft {draft : RuleDraft}
    (h : d.ownedRuleDraft userId draftId = some draft) : draft ∈ d.ruleDrafts.rows :=
  List.mem_of_find?_eq_some h

lemma settled_expireCommandDraft {draft : CommandDraft} (h : Settled d ref) :
    Settled ((expireCommandDraft draft).eval d).2 ref := by
  rw [expireCommandDraft]
  split_ifs
  · exact h
  · exact settled_setCommandDraft h fun _ => .inl rfl

lemma settled_expireRuleDraft {draft : RuleDraft} (h : Settled d ref) :
    Settled ((expireRuleDraft draft).eval d).2 ref := by
  rw [expireRuleDraft]
  split_ifs
  · exact h
  · exact settled_setRuleDraft h fun _ => .inl rfl

lemma settled_confirmCommandDraft (h : Settled d ref) :
    Settled ((confirmCommandDraft e now userId draftId key).eval d).2 ref := by
  rw [confirmCommandDraft, Txn.eval_lock]
  cases hown : d.ownedCommandDraft userId draftId with
  | none => exact h
  | some draft =>
    dsimp only
    cases draft.materialized e key with
    | some answer => exact h
    | none =>
      dsimp only
      split_ifs with _ _ hdraft
      · exact h
      · exact settled_expireCommandDraft h
      · exact h
      · exact h
      · cases e.artifact with
        | error code => exact h
        | ok artifact =>
          have hid : (draft.become key artifact).id = draft.id := by cases artifact <;> rfl
          refine settled_setCommandDraft h fun hsettled => absurd (not_not.mp hdraft) ?_
          exact not_draft_of_settled_command (hid ▸ hsettled) (mem_of_ownedCommandDraft hown)

lemma settled_rejectCommandDraft (h : Settled d ref) :
    Settled ((rejectCommandDraft now userId draftId).eval d).2 ref := by
  rw [rejectCommandDraft, Txn.eval_lock]
  cases d.ownedCommandDraft userId draftId with
  | none => exact h
  | some draft =>
    dsimp only
    split_ifs
    · exact h
    · exact h
    · exact settled_setCommandDraft h fun _ => .inl rfl
    · exact settled_setCommandDraft h fun _ => .inr rfl

lemma settled_previewDraft (h : Settled d ref) :
    Settled ((previewDraft now userId draftId).eval d).2 ref := by
  rw [previewDraft, Txn.eval_lock]
  cases d.ownedRuleDraft userId draftId with
  | none => exact h
  | some draft =>
    dsimp only
    split_ifs
    · exact settled_expireRuleDraft h
    · exact h
    · exact h

lemma settled_confirmDraft (h : Settled d ref) :
    Settled ((confirmDraft e now userId draftId key).eval d).2 ref := by
  rw [confirmDraft, Txn.eval_lock]
  cases hown : d.ownedRuleDraft userId draftId with
  | none => exact h
  | some draft =>
    dsimp only
    cases draft.materialized e key with
    | some answer => exact h
    | none =>
      dsimp only
      split_ifs with _ _ hdraft
      · exact h
      · exact settled_expireRuleDraft h
      · exact h
      · exact h
      · refine settled_setRuleDraft h fun hsettled => absurd (not_not.mp hdraft) ?_
        exact not_draft_of_settled_rule hsettled (mem_of_ownedRuleDraft hown)

lemma settled_rejectDraft (h : Settled d ref) :
    Settled ((rejectDraft now userId draftId).eval d).2 ref := by
  rw [rejectDraft, Txn.eval_lock]
  cases d.ownedRuleDraft userId draftId with
  | none => exact h
  | some draft =>
    dsimp only
    split_ifs
    · exact h
    · exact h
    · exact settled_setRuleDraft h fun _ => .inl rfl
    · exact settled_setRuleDraft h fun _ => .inr rfl

/-! ### Every run -/

/-- Nobody is told anything. -/
lemma Inv.quiet {w : World} (h : Inv w) {db : Db} {now : ℕ}
    (hdb : ∀ ref, Settled w.db ref → Settled db ref) :
    Inv { w with db, now, last := none } where
  stored _ hd := absurd hd.symm (Option.some_ne_none _)
  settled draft hd := hdb draft (h.settled draft hd)

/-- A request that keeps what is settled, and tells the truth. -/
lemma Inv.serve {R : Type} {w : World} {t : Program R} (h : Inv w)
    (hkeep : ∀ ref, Settled w.db ref → Settled (t.eval w.db).2 ref)
    (htold : ∀ ref, toldExpired (t.eval w.db).1 = some ref → w.db.status ref = some .expired) :
    Inv (w.serve t) where
  stored draft hd := by
    rw [World.serve, served_of_told hd]
    exact htold draft hd
  settled draft hd := by
    rcases List.mem_append.mp hd with hlast | hd
    · have hlast := Option.mem_toList.mp hlast
      rw [World.serve, served_of_told hlast]
      exact .inl (htold draft hlast)
    · exact Txn.served_of_eval (I := fun d => Settled d draft) (h.settled draft hd)
        (hkeep draft (h.settled draft hd))

lemma expired_of_inTime {status : DraftStatus} {expiresAt : ℕ}
    (hin : status = .expired ∨ now < expiresAt) (hout : status = .expired ∨ expiresAt ≤ now) :
    status = .expired := by
  rcases hin with hs | hlt
  · exact hs
  · exact hout.resolve_right (Nat.not_le.mpr hlt)

/-- A step in time keeps what holds. -/
lemma Inv.next {w : World} {l : Step} (h : Inv w) (hl : InTime w l) : Inv (next w l) := by
  cases l with
  | tick elapsed => exact h.quiet fun _ hs => hs
  | elsewhere around => exact h.quiet fun _ hs => hs
  | createCommandDraft draft => exact h.quiet fun _ hs => settled_insertCommandDraft hs
  | createDraft draft => exact h.quiet fun _ hs => settled_insertRuleDraft hs
  | confirmCommandDraft e userId draftId key =>
    refine h.serve (fun ref => settled_confirmCommandDraft) fun ref href => ?_
    obtain ⟨draft, hown, hmat, hrejected, hexpired, rfl⟩ := told_confirmCommandDraft.mp href
    have hs := expired_of_inTime (hl draft hown hmat hrejected) hexpired
    rw [status_of_mem_command (mem_of_ownedCommandDraft hown), hs]
  | rejectCommandDraft userId draftId =>
    refine h.serve (fun ref => settled_rejectCommandDraft) fun ref href => ?_
    exact absurd (href.symm.trans told_rejectCommandDraft) (Option.some_ne_none _)
  | previewDraft userId draftId =>
    refine h.serve (fun ref => settled_previewDraft) fun ref href => ?_
    obtain ⟨draft, hown, hexpired, rfl⟩ := told_previewDraft.mp href
    have hs := expired_of_inTime (hl draft hown) hexpired
    rw [status_of_mem_rule (mem_of_ownedRuleDraft hown), hs]
  | confirmDraft e userId draftId key =>
    refine h.serve (fun ref => settled_confirmDraft) fun ref href => ?_
    obtain ⟨draft, hown, hmat, hrejected, hexpired, rfl⟩ := told_confirmDraft.mp href
    have hs := expired_of_inTime (hl draft hown hmat hrejected) hexpired
    rw [status_of_mem_rule (mem_of_ownedRuleDraft hown), hs]
  | rejectDraft userId draftId =>
    refine h.serve (fun ref => settled_rejectDraft) fun ref href => ?_
    exact absurd (href.symm.trans told_rejectDraft) (Option.some_ne_none _)

/-- What a request tells must be stored. -/
lemma stored_of_truthful {R : Type} {w : World} {t : Program R} (h : Truthful (w.serve t))
    (href : toldExpired (t.eval w.db).1 = some ref) : w.db.status ref = some .expired := by
  have hstored := h.stored ref href
  rwa [World.serve, served_of_told href] at hstored

/-- A step that is not in time tells what is not so. -/
lemma inTime_of_truthful {w : World} {l : Step} (h : Truthful (next w l)) : InTime w l := by
  cases l with
  | tick => trivial
  | elsewhere => trivial
  | createCommandDraft => trivial
  | createDraft => trivial
  | rejectCommandDraft => trivial
  | rejectDraft => trivial
  | confirmCommandDraft e userId draftId key =>
    intro draft hown hmat hrejected
    refine or_iff_not_imp_right.mpr fun hlt => ?_
    have hstored := stored_of_truthful h (told_confirmCommandDraft.mpr
      ⟨draft, hown, hmat, hrejected, .inr (Nat.not_lt.mp hlt), rfl⟩)
    rw [status_of_mem_command (mem_of_ownedCommandDraft hown)] at hstored
    exact Option.some.inj hstored
  | previewDraft userId draftId =>
    intro draft hown
    refine or_iff_not_imp_right.mpr fun hlt => ?_
    have hstored := stored_of_truthful h (told_previewDraft.mpr
      ⟨draft, hown, .inr (Nat.not_lt.mp hlt), rfl⟩)
    rw [status_of_mem_rule (mem_of_ownedRuleDraft hown)] at hstored
    exact Option.some.inj hstored
  | confirmDraft e userId draftId key =>
    intro draft hown hmat hrejected
    refine or_iff_not_imp_right.mpr fun hlt => ?_
    have hstored := stored_of_truthful h (told_confirmDraft.mpr
      ⟨draft, hown, hmat, hrejected, .inr (Nat.not_lt.mp hlt), rfl⟩)
    rw [status_of_mem_rule (mem_of_ownedRuleDraft hown)] at hstored
    exact Option.some.inj hstored

lemma run_isSome (w : World) (ls : List Step) : ∃ w', run step w ls = some w' := by
  induction ls generalizing w with
  | nil => exact ⟨w, rfl⟩
  | cons l ls ih => exact ih (next w l)

/-- **When those who are told that a draft is expired are told the truth**: in a run in which no
draft is confirmed or previewed that has run out and is not stored as expired. -/
theorem truthful_iff (db : Db) (now : ℕ) (ls : List Step) :
    Throughout step Truthful (World.start db now) ls ↔ Meets step InTime (World.start db now) ls := by
  obtain ⟨w', hr⟩ := run_isSome (World.start db now) ls
  refine Machine.throughout_iff_meets (I := Inv) Inv.truthful (fun {w l w'} hi hw => ?_) ?_ hr
  · rw [← Option.some.inj hw]
    exact ⟨hi.next, inTime_of_truthful⟩
  · exact ⟨fun _ hd => absurd hd.symm (Option.some_ne_none _), fun _ hd => absurd hd List.not_mem_nil⟩

/-- A room with a draft that runs out at 10. -/
def sampleDb : Db where
  around := ⟨[⟨"room", "user", true⟩], [⟨"session", "user", "room", true⟩], [], []⟩
  commandDrafts := ⟨[⟨"draft", "session", "user", .draft, none, none, none, none, 10⟩], by decide⟩
  ruleDrafts := Table.empty

def sampleElsewhere : Elsewhere :=
  ⟨fun _ => none, fun _ => false, fun _ => false, fun _ => false, false, .ok (.command "c"), "r"⟩

/-- It is confirmed at 10. The answer is that it is expired, and it stays a draft. -/
theorem not_truthful :
    ¬∀ (db : Db) (now : ℕ) (ls : List Step), Throughout step Truthful (World.start db now) ls := by
  intro h
  have hend := (h sampleDb 10 [.confirmCommandDraft sampleElsewhere "user" "draft" "key"]).end rfl
  have hlast := hend.stored (.command "draft") (by decide)
  exact absurd hlast (by decide)

end MouseKeeper.Chat.ExpiredDrafts
