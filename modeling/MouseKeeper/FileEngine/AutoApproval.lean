import Mathlib.Data.List.Nodup
import MouseKeeper.FileEngine.FileIndex
import MouseKeeper.FileEngine.Proposal

/-!
Decisions on a report of proposals, and the policy that makes them on its own.

The policy approves what is ready and of an action that it allows, or nothing at all if that is
more than it may approve in one run.
-/

namespace MouseKeeper.FileEngine

open Posix (bind_eq_ok)

/-! ### Decisions -/

inductive Decision
  | approved
  | rejected
  deriving DecidableEq

structure DecisionEntry where
  proposalId : String
  decision : Decision
  reason : Option String
  deriving DecidableEq

/-- The errors of `apply_decisions`; those of reading a file of decisions are left out. -/
inductive DecisionError
  | unknownProposalId (id : String)
  | duplicateDecision (id : String)
  | missingRejectionReason (id : String)
  deriving DecidableEq

def DecisionError.toText : DecisionError → String
  | .unknownProposalId id => "decision references unknown proposal_id " ++ id
  | .duplicateDecision id => "decision contains duplicate proposal_id " ++ id
  | .missingRejectionReason id => "rejected decision for proposal_id " ++ id ++
      " must include a non-empty reason"

structure RejectedProposal where
  proposal : Proposal
  reason : String
  deriving DecidableEq

structure DecisionApplication where
  approved : ProposalReport
  rejected : List RejectedProposal
  deriving DecidableEq

def rejectionReason (d : DecisionEntry) : Option String :=
  (d.reason.map trim).filter (· ≠ "")

/-- The decisions one after the other, with the ids seen so far. -/
def checkDecisions (known : List String) : List String → List DecisionEntry →
    Except DecisionError Unit
  | _, [] => .ok ()
  | seen, d :: decisions =>
    if d.proposalId ∉ known then .error (.unknownProposalId d.proposalId)
    else if d.proposalId ∈ seen then .error (.duplicateDecision d.proposalId)
    else if d.decision = .rejected ∧ rejectionReason d = none then
      .error (.missingRejectionReason d.proposalId)
    else checkDecisions known (d.proposalId :: seen) decisions

def approvedIds (decisions : List DecisionEntry) : List String :=
  (decisions.filter (·.decision = .approved)).map (·.proposalId)

/-- The rejected ids with their reasons. -/
def rejectedById (decisions : List DecisionEntry) : List (String × String) :=
  (decisions.filter (·.decision = .rejected)).filterMap fun d =>
    (rejectionReason d).map (d.proposalId, ·)

def applyDecisions (report : ProposalReport) (decisions : List DecisionEntry) :
    Except DecisionError DecisionApplication := do
  checkDecisions (report.proposals.map (·.proposalId)) [] decisions
  .ok {
    approved := ⟨report.root, report.proposals.filter (·.proposalId ∈ approvedIds decisions)⟩
    rejected := (report.proposals.filter (·.proposalId ∉ approvedIds decisions)).filterMap fun p =>
      ((rejectedById decisions).lookup p.proposalId).map (⟨p, ·⟩) }

/-! ### The policy -/

structure AutoApprovalPolicy where
  enabled : Bool
  allowedActions : List ProposalAction
  maxFilesPerRun : ℕ
  deriving DecidableEq

inductive AutoApprovalError
  | disabled
  | emptyAllowedActions
  | maxFilesPerRunZero
  | tooManyReadyProposals (ready max : ℕ)
  deriving DecidableEq

def AutoApprovalError.toText : AutoApprovalError → String
  | .disabled => "auto approval policy is disabled"
  | .emptyAllowedActions => "auto approval policy has no allowed actions"
  | .maxFilesPerRunZero => "auto approval max_files_per_run must be greater than zero"
  | .tooManyReadyProposals ready max => "auto approval would approve " ++ toString ready ++
      " proposals, exceeding limit " ++ toString max

def AutoApprovalPolicy.validate (policy : AutoApprovalPolicy) : Except AutoApprovalError Unit :=
  if policy.enabled = false then .error .disabled
  else if policy.allowedActions = [] then .error .emptyAllowedActions
  else if policy.maxFilesPerRun = 0 then .error .maxFilesPerRunZero
  else .ok ()

/-- What is ready and of an allowed action. -/
def readyAllowed (report : ProposalReport) (policy : AutoApprovalPolicy) : List Proposal :=
  report.proposals.filter fun p => p.status = .ready && p.action ∈ policy.allowedActions

def approval (p : Proposal) : DecisionEntry := ⟨p.proposalId, .approved, none⟩

def autoApproveDecisions (report : ProposalReport) (policy : AutoApprovalPolicy) :
    Except AutoApprovalError (List DecisionEntry) := do
  policy.validate
  if policy.maxFilesPerRun < (readyAllowed report policy).length then
    .error (.tooManyReadyProposals (readyAllowed report policy).length policy.maxFilesPerRun)
  else .ok ((readyAllowed report policy).map approval)

/-! ### What decisions do -/

variable {report : ProposalReport} {policy : AutoApprovalPolicy} {known seen : List String}
  {decisions : List DecisionEntry}

/-- Decisions are accepted one on each of some known ids, with a reason for each rejection. -/
lemma checkDecisions_eq_ok : checkDecisions known seen decisions = .ok () ↔
    (∀ d ∈ decisions, d.proposalId ∈ known ∧ d.proposalId ∉ seen ∧
      (d.decision = .rejected → rejectionReason d ≠ none)) ∧
    (decisions.map (·.proposalId)).Nodup := by
  induction decisions generalizing seen with
  | nil => simp [checkDecisions]
  | cons d decisions ih =>
    rw [checkDecisions, List.forall_mem_cons, List.map_cons, List.nodup_cons]
    by_cases hknown : d.proposalId ∈ known
    swap
    · rw [if_pos hknown]
      exact iff_of_false (by simp) fun h => hknown h.1.1.1
    by_cases hseen : d.proposalId ∈ seen
    · rw [if_neg (not_not.mpr hknown), if_pos hseen]
      exact iff_of_false (by simp) fun h => h.1.1.2.1 hseen
    rw [if_neg (not_not.mpr hknown), if_neg hseen]
    split_ifs with hreason
    · exact iff_of_false (by simp) fun h => h.1.1.2.2 hreason.1 hreason.2
    · have hfirst : d.proposalId ∈ known ∧ d.proposalId ∉ seen ∧
          (d.decision = .rejected → rejectionReason d ≠ none) :=
        ⟨hknown, hseen, fun h hnone => hreason ⟨h, hnone⟩⟩
      rw [ih, and_iff_right hfirst]
      simp only [List.mem_cons, not_or, List.mem_map, not_exists, not_and]
      constructor
      · rintro ⟨hall, hnodup⟩
        exact ⟨fun x hx => ⟨(hall x hx).1, (hall x hx).2.1.2, (hall x hx).2.2⟩,
          fun x hx => (hall x hx).2.1.1, hnodup⟩
      · rintro ⟨hall, hne, hnodup⟩
        exact ⟨fun x hx => ⟨(hall x hx).1, ⟨hne x hx, (hall x hx).2.1⟩, (hall x hx).2.2⟩, hnodup⟩

lemma approvedIds_map_approval (ps : List Proposal) :
    approvedIds (ps.map approval) = ps.map (·.proposalId) := by
  induction ps with
  | nil => rfl
  | cons p ps ih => exact congrArg (p.proposalId :: ·) ih

lemma rejectedById_map_approval (ps : List Proposal) : rejectedById (ps.map approval) = [] := by
  induction ps with
  | nil => rfl
  | cons p ps ih => exact ih

/-- Approving some proposals of a report approves these, in the order of the report. -/
lemma applyDecisions_approvals (hnodup : (report.proposals.map (·.proposalId)).Nodup)
    (cond : Proposal → Bool) :
    applyDecisions report ((report.proposals.filter cond).map approval) =
      .ok ⟨⟨report.root, report.proposals.filter cond⟩, []⟩ := by
  have hsub := (List.filter_sublist (p := cond) (l := report.proposals)).map (·.proposalId)
  have hcheck : checkDecisions (report.proposals.map (·.proposalId)) []
      ((report.proposals.filter cond).map approval) = .ok () := by
    refine checkDecisions_eq_ok.mpr ⟨fun d hd => ?_, ?_⟩
    · obtain ⟨p, hp, rfl⟩ := List.mem_map.mp hd
      exact ⟨hsub.subset (List.mem_map_of_mem hp), List.not_mem_nil, fun h => by cases h⟩
    · rw [List.map_map]
      exact hsub.nodup hnodup
  have hsame : ∀ p ∈ report.proposals,
      (p.proposalId ∈ (report.proposals.filter cond).map (·.proposalId) ↔ cond p = true) := by
    intro p hp
    constructor
    · intro h
      obtain ⟨q, hq, hid⟩ := List.mem_map.mp h
      obtain ⟨hq, hcond⟩ := List.mem_filter.mp hq
      exact List.inj_on_of_nodup_map hnodup hq hp hid ▸ hcond
    · intro h
      exact List.mem_map_of_mem (List.mem_filter.mpr ⟨hp, h⟩)
  have happroved : report.proposals.filter (fun p =>
      p.proposalId ∈ (report.proposals.filter cond).map (·.proposalId)) =
      report.proposals.filter cond := by
    refine List.filter_congr fun p hp => ?_
    rw [Bool.eq_iff_iff, decide_eq_true_eq]
    exact hsame p hp
  unfold applyDecisions
  rw [hcheck, approvedIds_map_approval, rejectedById_map_approval, happroved]
  simp [bind, Except.bind]

/-! ### The two together -/

lemma validate_eq_ok : policy.validate = .ok () ↔
    policy.enabled = true ∧ policy.allowedActions ≠ [] ∧ 0 < policy.maxFilesPerRun := by
  unfold AutoApprovalPolicy.validate
  split_ifs with h₁ h₂ h₃
  · simp [h₁]
  · simp [h₂]
  · simp [h₃]
  · simp [h₁, h₂, Nat.pos_of_ne_zero h₃]

/-- The policy may decide, and on no more than it may approve. -/
structure AutoApprovalPolicy.Covers (policy : AutoApprovalPolicy) (report : ProposalReport) :
    Prop where
  enabled : policy.enabled = true
  allowed : policy.allowedActions ≠ []
  pos : 0 < policy.maxFilesPerRun
  le : (readyAllowed report policy).length ≤ policy.maxFilesPerRun

lemma autoApproveDecisions_eq_ok : autoApproveDecisions report policy = .ok decisions ↔
    policy.Covers report ∧ decisions = (readyAllowed report policy).map approval := by
  unfold autoApproveDecisions
  rw [bind_eq_ok]
  constructor
  · rintro ⟨_, hvalid, h⟩
    obtain ⟨henabled, hallowed, hpos⟩ := validate_eq_ok.mp hvalid
    split_ifs at h with hle
    · cases h
      exact ⟨⟨henabled, hallowed, hpos, not_lt.mp hle⟩, rfl⟩
  · rintro ⟨hc, rfl⟩
    exact ⟨(), validate_eq_ok.mpr ⟨hc.enabled, hc.allowed, hc.pos⟩, if_neg (not_lt.mpr hc.le)⟩

/-- **Automatic approval composes.** What the policy decides can be applied, and approves just what
is ready and allowed, or the policy decides nothing. -/
theorem auto_approval_composes (report : ProposalReport) (policy : AutoApprovalPolicy)
    (hnodup : (report.proposals.map (·.proposalId)).Nodup) :
    (policy.Covers report → ∃ decisions, autoApproveDecisions report policy = .ok decisions ∧
      applyDecisions report decisions = .ok ⟨⟨report.root, readyAllowed report policy⟩, []⟩ ∧
      (readyAllowed report policy).length ≤ policy.maxFilesPerRun) ∧
    (¬ policy.Covers report → ∃ e, autoApproveDecisions report policy = .error e) := by
  constructor
  · intro hc
    exact ⟨_, autoApproveDecisions_eq_ok.mpr ⟨hc, rfl⟩, applyDecisions_approvals hnodup _, hc.le⟩
  · intro hc
    cases h : autoApproveDecisions report policy with
    | error e => exact ⟨e, rfl⟩
    | ok decisions => exact absurd (autoApproveDecisions_eq_ok.mp h).1 hc

/-! ### Samples -/

def sampleReady (id : String) : Proposal :=
  { Proposal.plain .trash id TRASH_DIR 1 none with proposalId := id }

def sampleReport : ProposalReport := ⟨"/work", [sampleReady "a", sampleReady "b"]⟩

theorem auto_approval_composes_sample : ∃ decisions,
    autoApproveDecisions sampleReport ⟨true, [.trash], 2⟩ = .ok decisions ∧
      applyDecisions sampleReport decisions = .ok ⟨sampleReport, []⟩ := by
  have h := auto_approval_composes sampleReport ⟨true, [.trash], 2⟩ (by decide)
  obtain ⟨decisions, hauto, happly, -⟩ := h.1 ⟨rfl, by decide, by decide, by decide⟩
  exact ⟨decisions, hauto, happly⟩

/-- With two that are ready and one that may be approved, none is. -/
theorem not_auto_approval_composes : ¬ ∀ (report : ProposalReport) (policy : AutoApprovalPolicy),
    policy.validate = .ok () → (report.proposals.map (·.proposalId)).Nodup →
      ∃ decisions, autoApproveDecisions report policy = .ok decisions ∧
        applyDecisions report decisions =
          .ok ⟨⟨report.root, (readyAllowed report policy).take policy.maxFilesPerRun⟩, []⟩ := by
  intro h
  obtain ⟨decisions, hauto, -⟩ := h sampleReport ⟨true, [.trash], 1⟩ (by decide) (by decide)
  have hrefused : autoApproveDecisions sampleReport ⟨true, [.trash], 1⟩ =
      .error (.tooManyReadyProposals 2 1) := by decide
  rw [hrefused] at hauto
  cases hauto

end MouseKeeper.FileEngine
