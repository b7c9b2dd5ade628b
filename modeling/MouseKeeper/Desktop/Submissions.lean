import MouseKeeper.Contracts.Commands
import MouseKeeper.Contracts.Proposals
import MouseKeeper.Desktop.OutOfReach
import MouseKeeper.FileEngine.Contract

/-!
From a command to the proposal that the desktop queues for the server.

The saved rules of a root come as what `load_rule_set_for_root` makes of them. Of the text of an
error only its beginning is kept where serde has a part in it.
-/

namespace MouseKeeper.Desktop.Builders

open MouseKeeper.Contracts (CommandPayload CreateProposal Json OrganizeCommandPayload ProposalItem)
open MouseKeeper.FileEngine Posix

def DEFAULT_MAX_PROPOSALS : ℕ := 50

structure AgentCommand where
  commandId : String
  roomId : String

/-! ### The work of a command -/

/-- Only the root itself can be analyzed. -/
def validateRelativeScope (path : String) : Except String Unit :=
  if path ≠ "" then
    .error "organize_files.relativePath is not supported until scoped analysis is implemented"
  else .ok ()

/-- `resolve_proposal`, up to the rule set. -/
def resolveRules (saved : Except RuleError RuleSet) (payload : OrganizeCommandPayload) :
    Except String RuleSet :=
  match payload.ruleDraft with
  | some draft =>
    (RuleSet.fromContractDefinition "draft-rule" 0 draft.toJson).mapError fun _ =>
      "invalid AI rule draft shape"
  | none =>
    if payload.instruction.isSome then
      .error "ORGANIZE_RULE_DRAFT_REQUIRED: refusing to ignore the requested file selector"
    else saved.mapError RuleError.toText

def workOf (saved : Except RuleError RuleSet) : CommandPayload → Except String Work
  | .rename p => .ok (.rename ⟨p.sourceRelativePath, p.newName⟩)
  | .move p => .ok (.move ⟨p.sourceRelativePaths, p.destinationRelativeDirectory⟩)
  | .trash p => .ok (.trash ⟨p.sourceRelativePaths⟩)
  | .create p => .ok (.create ⟨p.kind, p.relativePath, p.content⟩)
  | .organize p => do
    validateRelativeScope p.scopeRelativePath
    .rules <$> resolveRules saved p

def Work.maxProposals : Work → ℕ
  | .rules _ => DEFAULT_MAX_PROPOSALS
  | .create _ | .rename _ => 1
  | .trash _ | .move _ => 200

/-! ### The submission -/

def reasonCode (p : Proposal) : String :=
  if p.reason = USER_REQUESTED_RENAME_REASON then USER_REQUESTED_RENAME_REASON
  else if p.reason = USER_REQUESTED_MOVE_REASON then USER_REQUESTED_MOVE_REASON
  else if p.reason = USER_REQUESTED_TRASH_REASON then USER_REQUESTED_TRASH_REASON
  else if p.reason = USER_REQUESTED_CREATE_DIR_REASON then USER_REQUESTED_CREATE_DIR_REASON
  else if p.reason = USER_REQUESTED_CREATE_FILE_REASON then USER_REQUESTED_CREATE_FILE_REASON
  else
    match p.action with
    | .move => "RULE_MOVE_BY_EXTENSION"
    | .trash => "RULE_QUARANTINE"
    | .createDir => "RULE_CREATE_DIR"
    | .createFile => "CREATE_FILE"
    | .readmeWrite => "README_WRITE"

def actionType : ProposalAction → Contracts.ProposalActionType
  | .move => .move
  | .trash => .quarantine
  | .createDir => .createDir
  | .createFile => .createFile
  | .readmeWrite => .readmeWrite

def sourceOf (p : Proposal) : Option String :=
  match p.action with
  | .move | .trash => some p.fromPath
  | .createDir | .createFile | .readmeWrite => none

def destinationOf (p : Proposal) : Option String :=
  match p.action with
  | .move | .createDir | .createFile => some p.toPath
  | .trash => none
  | .readmeWrite => some "README.md"

def precondition (now : ℕ) (p : Proposal) : Json :=
  .obj ([("proposalId", .str p.proposalId), ("sourceSizeBytes", .ofNat p.sourceSizeBytes),
    ("sourceModifiedUnixMs", p.sourceModifiedUnixMs.elim .null .ofNat),
    ("checkedAtUnixMs", .ofNat now)] ++
      (p.sourceFileId.map fun id => ("sourceFileId", Json.str id)).toList)

def proposalItem (now itemOrder : ℕ) (p : Proposal) : ProposalItem where
  itemOrder := itemOrder
  actionType := actionType p.action
  sourceRelativePath := sourceOf p
  destinationRelativePath := destinationOf p
  reasonCode := reasonCode p
  precondition := precondition now p
  conflictState := match p.status with
    | .ready => .none
    | .destinationExists => .nameConflict

def buildAgentProposalSubmission (now : ℕ) (command : AgentCommand) (report : ProposalReport)
    (maxProposals : ℕ) : Except String CreateProposal :=
  if 1 ≤ maxProposals ∧ maxProposals ≤ 200 then
    let items := (report.proposals.take maxProposals).mapIdx fun index p => proposalItem now index p
    .ok ⟨command.commandId, command.roomId, items.length, items⟩
  else .error "organize_files.maxProposals must be between 1 and 200"

/-- What is queued for the work, which for a rule set is nothing if nothing is to be done. -/
def submission (os : Os) (s : Sys) (root : RawPath) (command : AgentCommand) (w : Work) :
    Except String (Option CreateProposal) := do
  let report ← w.report os s root
  let proposal ← buildAgentProposalSubmission (unixMs os s) command report w.maxProposals
  match w with
  | .rules _ => .ok (if proposal.items.length = 0 then none else some proposal)
  | .create _ | .trash _ | .move _ | .rename _ => .ok (some proposal)

/-! ### What the server asks of it -/

/-- The paths of the item that is made of the proposal. -/
def Fitting (p : Proposal) : Prop :=
  (∀ s ∈ sourceOf p, Contracts.relativePathSchema s = true) ∧
    ∀ d ∈ destinationOf p, Contracts.relativePathSchema d = true

/-- The sources, as the server compares them. -/
def sources (l : List Proposal) : List String :=
  l.filterMap fun p => (sourceOf p).map Contracts.normalized

lemma reasonCode_length (p : Proposal) :
    1 ≤ Contracts.length (reasonCode p) ∧ Contracts.length (reasonCode p) ≤ 100 := by
  have hall : ∀ r ∈ ["USER_REQUESTED_RENAME", "USER_REQUESTED_MOVE", "USER_REQUESTED_TRASH",
      "USER_REQUESTED_CREATE_DIR", "USER_REQUESTED_CREATE_FILE", "RULE_MOVE_BY_EXTENSION",
      "RULE_QUARANTINE", "RULE_CREATE_DIR", "CREATE_FILE", "README_WRITE"],
      1 ≤ Contracts.length r ∧ Contracts.length r ≤ 100 := by decide
  refine hall _ ?_
  unfold reasonCode
  split
  · simp [USER_REQUESTED_RENAME_REASON]
  split
  · simp [USER_REQUESTED_MOVE_REASON]
  split
  · simp [USER_REQUESTED_TRASH_REASON]
  split
  · simp [USER_REQUESTED_CREATE_DIR_REASON]
  split
  · simp [USER_REQUESTED_CREATE_FILE_REASON]
  split <;> simp

/-- A character takes one code unit or two. -/
lemma units_le (s : String) : Contracts.length s ≤ s.toList.length * 2 := by
  rw [Contracts.length]
  induction s.toList with
  | nil => exact Nat.le_refl 0
  | cons c cs ih =>
    rw [List.map_cons, List.sum_cons, List.length_cons]
    split <;> omega

/-- A short list of items has a short summary. -/
lemma summary_ok {n : ℕ} (h : n ≤ 200) : Contracts.summarySchema n = true := by
  have hdigits : (Nat.toDigits 10 n).length ≤ 3 :=
    (Nat.length_toDigits_le_iff (by decide) (by decide)).mpr (by omega)
  have hlength := units_le (Contracts.summaryText n)
  rw [Contracts.summaryText, String.toList_append, String.toList_append, List.length_append,
    List.length_append, show toString n = n.repr from rfl, Nat.toList_repr] at hlength
  have hopen : ("\x7b\"itemCount\":" : String).toList.length = 13 := by decide
  have hclose : ("\x7d" : String).toList.length = 1 := by decide
  have hmax : n ≤ Json.MAX_SAFE_INTEGER := h.trans (by decide)
  rw [Contracts.summarySchema, decide_eq_true hmax, Bool.true_and, decide_eq_true_iff,
    Contracts.summaryText, show toString n = n.repr from rfl]
  omega

lemma item_ok (now : ℕ) {index : ℕ} (h : index ≤ 200) (p : Proposal) :
    Contracts.proposalItemSchema (proposalItem now index p) = true ↔ Fitting p := by
  have hmax : index ≤ Json.MAX_SAFE_INTEGER := h.trans (by decide)
  obtain ⟨h₁, h₂⟩ := reasonCode_length p
  have hobj : (precondition now p).asObj.isSome = true := rfl
  simp only [Contracts.proposalItemSchema, proposalItem, hmax, h₁, h₂, hobj, decide_true,
    Bool.and_true, Bool.true_and, Bool.and_eq_true, Option.all_eq_true, Fitting, Option.mem_def]

/-- **The schema on a submission**: it asks for its paths, and for sources without repetition. -/
theorem schema_iff {now max : ℕ} {command : AgentCommand} {report : ProposalReport}
    {proposal : CreateProposal} (hcommand : Contracts.uuidSchema command.commandId = true)
    (hroom : Contracts.uuidSchema command.roomId = true)
    (h : buildAgentProposalSubmission now command report max = .ok proposal)
    (hne : proposal.items.length ≠ 0) :
    Contracts.createProposalSchema proposal = true ↔
      (∀ p ∈ report.proposals.take max, Fitting p) ∧
        (sources (report.proposals.take max)).Nodup := by
  unfold buildAgentProposalSubmission at h
  split at h
  swap
  · cases h
  next hmax =>
  cases h
  generalize hl : report.proposals.take max = l at hne ⊢
  have hlen : l.length ≤ 200 := by
    rw [← hl, List.length_take]
    omega
  rw [List.length_mapIdx] at hne
  have hitems : ((l.mapIdx fun index p => proposalItem now index p).all
      Contracts.proposalItemSchema = true) ↔ ∀ p ∈ l, Fitting p := by
    rw [List.all_eq_true]
    constructor
    · intro hall p hp
      obtain ⟨i, hi, rfl⟩ := List.mem_iff_getElem.mp hp
      refine (item_ok now (show i ≤ 200 by omega) l[i]).mp (hall _ ?_)
      exact List.mem_mapIdx.mpr ⟨i, hi, rfl⟩
    · intro hall item hitem
      obtain ⟨i, hi, rfl⟩ := List.mem_mapIdx.mp hitem
      exact (item_ok now (by omega) _).mpr (hall _ (List.getElem_mem hi))
  have hsources : (l.mapIdx fun index p => proposalItem now index p).map (·.sourceRelativePath) =
      l.map sourceOf := by
    refine List.ext_getElem (by simp) fun i h₁ h₂ => ?_
    simp [proposalItem]
  simp only [Contracts.createProposalSchema, hcommand, hroom, summary_ok, List.length_mapIdx, hlen,
    decide_true, Bool.true_and, Bool.and_true, Bool.and_eq_true, hitems, hsources,
    Nat.one_le_iff_ne_zero, hne, ne_eq, not_false_eq_true]
  refine and_congr_right fun hall => ?_
  have hempty : some "" ∉ l.map sourceOf := by
    intro hmem
    obtain ⟨p, hp, hs⟩ := List.mem_map.mp hmem
    have hno := (hall p hp).1 "" hs
    exact absurd hno (by decide)
  rw [Contracts.noneRepeated_iff hempty, List.filterMap_map]
  exact and_iff_right fun _ _ => List.not_mem_nil

end MouseKeeper.Desktop.Builders
