import MouseKeeper.Desktop.EventReplay
import MouseKeeper.Machine

/-!
The rules of the server, and the replays that bring them to the folders.

Rules are created, confirmed from drafts and changed on the server, each with an event. A replay
reads the cursor, fetches a page of the events after it, and takes them one by one: for a created
rule it asks for the rules of the room, merges the one into `rules.json` and writes the file.
Replays may run side by side, and each may end at any point.
-/

namespace MouseKeeper.Desktop.RuleEvents

open Contracts (Json)
open FileEngine
open ManagedRootStore

/-! ### The server -/

inductive RuleDraftStatus
  | draft | rejected | expired | materialized
  deriving DecidableEq

structure RuleDraft where
  id : String
  roomId : String
  name : String
  definition : Json
  status : RuleDraftStatus
  ruleId : Option String
  confirmIdempotencyKey : Option String
  expiresAt : ℕ

/-- The active rooms of a user, with their rules and drafts, and the events of the user. -/
structure Server where
  rooms : List String
  rules : List AgentRule
  drafts : List RuleDraft
  events : List SyncEvent

inductive RulesError
  | notFound
  | conflict
  | idempotencyConflict
  | draftExpired (draft : RuleDraft)
  | invalidStateTransition (status : RuleDraftStatus)
  | versionConflict (currentVersion : ℤ)

/-- What an event draws: its id, the time, and the device it is for. -/
structure Stamp where
  eventId : String
  occurredAt : String
  deviceId : Option String

def nextSequence (events : List SyncEvent) : ℕ := (events.getLast?.map (·.sequence)).getD 0 + 1

/-- `SyncService.append`. -/
def Server.append (s : Server) (stamp : Stamp) (eventType aggregateType aggregateId : String)
    (roomId : Option String) (payload : Json) : Server :=
  { s with events := s.events ++ [
    { eventId := stamp.eventId
      eventType
      schemaVersion := 1
      correlationId := aggregateId
      aggregateType
      aggregateId
      deviceId := stamp.deviceId
      roomId
      sequence := nextSequence s.events
      occurredAt := stamp.occurredAt
      payload }] }

/-- A rule comes in with its event. -/
def Server.insertRule (s : Server) (rule : AgentRule) (stamp : Stamp)
    (payload : List (String × Json)) : Server :=
  { s with rules := s.rules ++ [rule] }.append stamp "rule.created" "rule" rule.ruleId
    (some rule.roomId)
    (.obj (("ruleId", .str rule.ruleId) :: ("version", .num rule.version) :: payload))

structure CreateRule where
  name : String
  definition : Json
  priority : ℤ
  enabled : Bool

/-- `RulesService.create`. -/
def Server.create (s : Server) (roomId : String) (body : CreateRule) (ruleId : String)
    (stamp : Stamp) : Except RulesError (AgentRule × Server) :=
  if roomId ∈ s.rooms then
    let rule : AgentRule :=
      ⟨ruleId, roomId, body.name, body.definition, body.priority, body.enabled, 1⟩
    .ok (rule, s.insertRule rule stamp [])
  else .error .notFound

def RULE_PRIORITY_STEP : ℤ := 100

/-- `nextRulePriorityIn`, by the rules that its statement sees. -/
def nextRulePriority (visible : List AgentRule) (roomId : String) : ℤ :=
  min (((visible.filter (·.roomId = roomId)).map (·.priority)).max?.getD 0 + RULE_PRIORITY_STEP)
    10000

/-- `RulesService.confirmDraft`. Whatever throws leaves everything as it was. -/
def Server.confirmDraft (s : Server) (draftId key : String) (now : ℕ) (visible : List AgentRule)
    (ruleId : String) (stamps : Stamp × Stamp) :
    Except RulesError ((RuleDraft × AgentRule) × Server) :=
  match s.drafts.find? fun d => d.id = draftId ∧ d.roomId ∈ s.rooms with
  | none => .error .notFound
  | some draft =>
    match draft.status, draft.ruleId with
    | .materialized, some materialized =>
      if draft.confirmIdempotencyKey ≠ some key then .error .idempotencyConflict
      else
        match s.rules.find? fun r => r.ruleId = materialized with
        | none => .error .conflict
        | some rule => .ok ((draft, rule), s)
    | .rejected, _ => .error (.invalidStateTransition .rejected)
    | .expired, _ => .error (.draftExpired draft)
    | .materialized, none =>
      if draft.expiresAt ≤ now then .error (.draftExpired { draft with status := .expired })
      else .error (.invalidStateTransition .materialized)
    | .draft, _ =>
      if draft.expiresAt ≤ now then .error (.draftExpired { draft with status := .expired })
      else if s.drafts.any fun d => d.confirmIdempotencyKey = some key ∧ d.id ≠ draft.id then
        .error .idempotencyConflict
      else
        let rule : AgentRule := ⟨ruleId, draft.roomId, draft.name, draft.definition,
          nextRulePriority visible draft.roomId, true, 1⟩
        let updated := { draft with
          status := .materialized, ruleId := some ruleId, confirmIdempotencyKey := some key }
        let s := s.insertRule rule stamps.1 [("ruleDraftId", .str draft.id)]
        let s := { s with
          drafts := s.drafts.map fun (d : RuleDraft) => if d.id = draft.id then updated else d }
        .ok ((updated, rule), s.append { stamps.2 with deviceId := none } "rule.draft.updated"
          "rule_draft" draft.id (some draft.roomId)
          (.obj [("ruleDraftId", .str draft.id), ("status", .str "MATERIALIZED"),
            ("ruleId", .str ruleId)]))

structure UpdateRule where
  name : Option String
  definition : Option Json
  priority : Option ℤ
  enabled : Option Bool
  version : ℤ

/-- The row that an update leaves. -/
def UpdateRule.set (body : UpdateRule) (rule : AgentRule) : AgentRule :=
  { rule with
    name := body.name.getD rule.name
    definition := body.definition.getD rule.definition
    priority := body.priority.getD rule.priority
    enabled := body.enabled.getD rule.enabled
    version := body.version + 1 }

/-- `RulesService.update`. -/
def Server.update (s : Server) (ruleId : String) (body : UpdateRule) (stamp : Stamp) :
    Except RulesError (AgentRule × Server) :=
  match s.rules.find? fun r => r.ruleId = ruleId ∧ r.roomId ∈ s.rooms with
  | none => .error .notFound
  | some current =>
    if current.version = body.version then
      let updated := body.set current
      let s := { s with
        rules := s.rules.map fun (r : AgentRule) => if r.ruleId = ruleId then updated else r }
      .ok (updated, s.append stamp "rule.updated" "rule" ruleId (some current.roomId)
        (.obj [("ruleId", .str ruleId), ("version", .num updated.version)]))
    else .error (.versionConflict current.version)

/-- `SyncService.replay`. -/
def Server.replay (s : Server) (after limit : ℕ) : List SyncEvent :=
  (s.events.filter fun e => after < e.sequence).take limit

/-- `RulesService.list`, up to the order. -/
def Server.list (s : Server) (roomId : String) : List AgentRule :=
  s.rules.filter (·.roomId = roomId)

/-! ### The replays -/

/-- Where a replay stands. -/
inductive Phase
  | asking
  | taking (ahead : List SyncEvent)
  | listed (rule : AgentRule) (ahead : List SyncEvent)
  | merged (root : ManagedRoot) (found : RulesFile) (set : RuleSet) (rule : AgentRule)
    (ahead : List SyncEvent)

/-- A replay, with the cursor that it has read or the sequence of the last event of its page. -/
structure Replay where
  last : ℕ
  phase : Phase

/-- The server, the files of one desktop and its cursor, and the replays that are under way. -/
structure World where
  server : Server
  files : String → RulesFile
  cursor : ℕ
  replays : List Replay

/-- No rules yet. -/
def World.start (rooms : List String) (drafts : List RuleDraft) (files : String → RulesFile) :
    World :=
  ⟨⟨rooms, [], drafts, []⟩, files, 0, []⟩

variable (roots : Roots)

/-- What the server answers while nothing on this side fails. -/
def World.surroundings (w : World) : Surroundings :=
  { rules := w.server.list
    persist := fun _ => none, createDir := fun _ => none, writeRules := fun _ => none
    saveCursor := fun _ => none, clearsCursor := true, forgetDevice := none, now := 0 }

def rulesPath (root : ManagedRoot) : String := root.root ++ "/.mousekeeper" ++ "/rules.json"

/-- A replay as it goes on, or nothing when it ends: by itself, or by an error. -/
def World.proceed (w : World) (p : Replay) : World × Option Replay :=
  match p.phase with
  | .asking =>
    let page := w.server.replay p.last 100
    match validateSyncEvents p.last page with
    | .error _ => (w, none)
    | .ok _ => (w, some ⟨(page.getLast?.map (·.sequence)).getD p.last, .taking page⟩)
  | .taking [] => if p.last < w.cursor then (w, none) else ({ w with cursor := p.last }, none)
  | .taking (e :: ahead) =>
    if e.eventType ≠ "rule.created" then (w, some ⟨p.last, .taking ahead⟩)
    else
      match e.roomId with
      | none => (w, some ⟨p.last, .taking ahead⟩)
      | some roomId =>
        match listRules w.surroundings roomId with
        | .error _ => (w, none)
        | .ok rules =>
          match rules.find? fun candidate => candidate.ruleId = e.ruleId with
          | none => (w, some ⟨p.last, .taking ahead⟩)
          | some rule => (w, some ⟨p.last, .listed rule ahead⟩)
  | .listed rule ahead =>
    match findByRoom roots rule.roomId with
    | none => (w, none)
    | some root =>
      match mergedRules (rulesPath root) (w.files root.root) rule with
      | .error _ => (w, none)
      | .ok set => (w, some ⟨p.last, .merged root (w.files root.root) set rule ahead⟩)
  | .merged root _ set _ ahead =>
    ({ w with files := Function.update w.files root.root (.parsed set) },
      some ⟨p.last, .taking ahead⟩)

/-- A replay that is cut short; the write of a file may leave anything. -/
def World.fail (w : World) (p : Replay) (left : Option RulesFile) : World :=
  match p.phase, left with
  | .merged root _ _ _ _, some file => { w with files := Function.update w.files root.root file }
  | _, _ => w

inductive Step
  | create (roomId : String) (body : CreateRule) (ruleId : String) (stamp : Stamp)
  | confirmDraft (draftId key : String) (now : ℕ) (visible : List AgentRule) (ruleId : String)
    (stamps : Stamp × Stamp)
  | update (ruleId : String) (body : UpdateRule) (stamp : Stamp)
  | append (stamp : Stamp) (eventType aggregateType aggregateId : String)
    (roomId : Option String) (payload : Json)
  | begin
  | proceed (i : ℕ)
  | fail (i : ℕ) (left : Option RulesFile)
  | restart

/-- Some rule of the file is named after the id. -/
def named (ruleId : String) : RulesFile → Bool
  | .parsed set => set.rules.any (madeOf ruleId)
  | _ => false

/-- A UUID that is new: no row has it, and no rule of a folder is named after it. -/
def World.Fresh (w : World) (ruleId : String) : Prop :=
  ruleId.length = 36 ∧ (∀ r ∈ w.server.rules, r.ruleId ≠ ruleId) ∧
    ∀ root ∈ values roots, named ruleId (w.files root.root) = false

instance (w : World) (ruleId : String) : Decidable (w.Fresh roots ruleId) := by
  unfold World.Fresh
  infer_instance

/-- The events of the server that change what this desktop serves. -/
def removals : List String := ["room.removed", "device.revoked"]

def World.answer {α : Type} (w : World) (r : Except RulesError (α × Server)) : World :=
  match r with
  | .ok (_, server) => { w with server }
  | .error _ => w

def step (w : World) : Step → Option World
  | .create roomId body ruleId stamp =>
    if w.Fresh roots ruleId then some (w.answer (w.server.create roomId body ruleId stamp))
    else none
  | .confirmDraft draftId key now visible ruleId stamps =>
    if w.Fresh roots ruleId then
      some (w.answer (w.server.confirmDraft draftId key now visible ruleId stamps))
    else none
  | .update ruleId body stamp => some (w.answer (w.server.update ruleId body stamp))
  | .append stamp eventType aggregateType aggregateId roomId payload =>
    if eventType = "rule.created" ∨ eventType ∈ removals then none
    else some { w with
      server := w.server.append stamp eventType aggregateType aggregateId roomId payload }
  | .begin => some { w with replays := w.replays ++ [⟨w.cursor, .asking⟩] }
  | .proceed i =>
    match w.replays[i]? with
    | none => none
    | some p =>
      match w.proceed roots p with
      | (w', some p') => some { w' with replays := w'.replays.set i p' }
      | (w', none) => some { w' with replays := w'.replays.eraseIdx i }
  | .fail i left =>
    match w.replays[i]? with
    | none => none
    | some p => some { w.fail p left with replays := w.replays.eraseIdx i }
  | .restart => some { w with replays := [] }

variable {roots} {w : World}

/-- Listing, merging and writing with nothing in between is `apply_rule_created_event`. -/
theorem proceed_applies {p : Replay} {e : SyncEvent} {ahead : List SyncEvent} {s : Local}
    (hp : p.phase = .taking (e :: ahead))
    (h : applyRuleCreatedEvent w.surroundings e ⟨roots, w.files, w.cursor⟩ = (.ok true, s)) :
    ∃ rule root set, w.proceed roots p = (w, some ⟨p.last, .listed rule ahead⟩) ∧
      w.proceed roots ⟨p.last, .listed rule ahead⟩ =
        (w, some ⟨p.last, .merged root (w.files root.root) set rule ahead⟩) ∧
      w.proceed roots ⟨p.last, .merged root (w.files root.root) set rule ahead⟩ =
        ({ w with files := s.rules }, some ⟨p.last, .taking ahead⟩) := by
  unfold applyRuleCreatedEvent at h
  split at h
  · cases h
  · next htype =>
    cases hroom : e.roomId with
    | none =>
      rw [hroom] at h
      cases h
    | some roomId =>
      rw [hroom] at h
      dsimp only at h
      cases hrules : listRules w.surroundings roomId with
      | error message =>
        rw [hrules] at h
        cases h
      | ok rules =>
        rw [hrules] at h
        dsimp only at h
        cases hfind : rules.find? fun candidate => candidate.ruleId = e.ruleId with
        | none =>
          rw [hfind] at h
          cases h
        | some rule =>
          rw [hfind] at h
          dsimp only [applyServerRuleToLocalRoot] at h
          cases hroot : findByRoom roots rule.roomId with
          | none =>
            rw [hroot] at h
            cases h
          | some root =>
            rw [hroot] at h
            dsimp only at h
            have hpath : root.root ++ "/.mousekeeper" ++ "/rules.json" = rulesPath root := rfl
            rw [hpath] at h
            cases hset : mergedRules (rulesPath root) (w.files root.root) rule with
            | error message =>
              rw [hset] at h
              cases h
            | ok set =>
              rw [hset] at h
              cases h
              refine ⟨rule, root, set, ?_, ?_, rfl⟩
              · rw [World.proceed, hp]
                simp only [htype, if_false, hroom, hrules, hfind]
              · rw [World.proceed]
                simp only [hroot, hset]

end MouseKeeper.Desktop.RuleEvents
