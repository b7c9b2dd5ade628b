import Mathlib.Data.List.Forall2
import MouseKeeper.Server.Effects

/-!
The invariant of the control plane's tables: unique keys, rows that refer to each other, and,
in calm runs, commands whose status is the one their proposal and execution give them. Every
effect keeps it, and in calm runs every effect moves its command forward.
-/

namespace MouseKeeper.Server

open MouseKeeper.ReadCommitted

/-! ### The order of the statuses -/

/-- How far a command has come. -/
def rank : CommandStatus → ℕ
  | .queued => 0
  | .delivered => 1
  | .analyzing => 2
  | .proposalReady => 3
  | .waitingApproval => 4
  | .approved => 5
  | .executing => 6
  | .rejected | .expired | .succeeded | .partiallySucceeded | .failed | .stale => 7

/-- The statuses that are the end. -/
def finished (st : CommandStatus) : Prop := rank st = 7

/-- A command and what has become of it: no step back, and nothing after the end. -/
structure Later (c c' : Command) : Prop where
  id : c'.id = c.id
  forward : rank c.status ≤ rank c'.status
  final : finished c.status → c'.status = c.status

/-- Every command has moved forward or stayed. -/
def Advances (d d' : Db) : Prop := List.Forall₂ Later d.commands d'.commands

lemma Advances.refl (d : Db) : Advances d d :=
  List.forall₂_same.mpr fun _ _ => ⟨rfl, Nat.le_refl _, fun _ => rfl⟩

lemma Later.trans {a b c : Command} (h : Later a b) (h' : Later b c) : Later a c where
  id := h'.id.trans h.id
  forward := Nat.le_trans h.forward h'.forward
  final hf := by
    have hb := h.final hf
    rw [h'.final (by rw [finished, hb]; exact hf), hb]

lemma Advances.trans {a b c : Db} (h : Advances a b) (h' : Advances b c) : Advances a c := by
  rw [Advances] at h h' ⊢
  generalize a.commands = la at h
  generalize b.commands = lb at h h'
  generalize c.commands = lc at h'
  induction h generalizing lc with
  | nil => cases h'; exact .nil
  | cons hab _ ih =>
    cases h' with
    | cons hbc h' => exact .cons (hab.trans hbc) (ih _ h')

lemma commandIds_set (i : ℕ) (st : CommandStatus) (d : Db) :
    (Db.setCommandStatus i st d).commands.map (·.id) = d.commands.map (·.id) := by
  rw [Db.setCommandStatus, List.map_map]
  refine List.map_congr_left fun c _ => ?_
  simp only [Function.comp_apply]
  split <;> rfl

/-- Setting a status that lies ahead. -/
lemma advances_set {d : Db} {i : ℕ} {st : CommandStatus}
    (h : ∀ c ∈ d.commands, c.id = i → rank c.status < rank st) :
    Advances d (Db.setCommandStatus i st d) := by
  rw [Advances, Db.setCommandStatus, List.forall₂_map_right_iff, List.forall₂_same]
  intro c hc
  split
  · have hlt := h c hc ‹_›
    refine ⟨rfl, Nat.le_of_lt hlt, fun hf => ?_⟩
    rw [finished] at hf
    have : rank st ≤ 7 := by cases st <;> decide
    omega
  · exact ⟨rfl, Nat.le_refl _, fun _ => rfl⟩

lemma rank_lt_of_canTransition {a b : CommandStatus} (h : canTransition a b) :
    rank a < rank b := by
  cases a <;> cases b <;> first | exact absurd h (by decide) | decide

/-! ### The invariant -/

def commandStatusOf : ExecutionStatus → CommandStatus
  | .executing => .executing
  | .succeeded => .succeeded
  | .partiallySucceeded => .partiallySucceeded
  | .failed => .failed
  | .stale => .stale
  | .rolledBack => .failed

/-- The status that a proposal and its execution give the command. -/
def Fits (d : Db) (p : Proposal) (st : CommandStatus) : Prop :=
  match p.status with
  | .open => st = .waitingApproval
  | .rejected => st = .rejected
  | .expired => True
  | .approved => (st = .approved ∧ ∀ e ∈ d.executions, e.proposalId ≠ p.id) ∨
      ∃ e ∈ d.executions, e.proposalId = p.id ∧ st = commandStatusOf e.status

structure Orderly (calm : Prop) (d : Db) : Prop where
  commandIds : (d.commands.map (·.id)).Nodup
  proposalIds : (d.proposals.map (·.id)).Nodup
  proposalCommands : (d.proposals.map (·.commandId)).Nodup
  decisionIds : (d.decisions.map (·.id)).Nodup
  decisionProposals : (d.decisions.map (·.proposalId)).Nodup
  executionIds : (d.executions.map (·.id)).Nodup
  executionProposals : (d.executions.map (·.proposalId)).Nodup
  executionKeys : (d.executions.map (·.idempotencyKey)).Nodup
  decided : ∀ r ∈ d.decisions, ∃ p ∈ d.proposals, p.id = r.proposalId ∧ p.status ≠ .open
  executed : ∀ e ∈ d.executions, (∃ p ∈ d.proposals, p.id = e.proposalId ∧
    p.status = .approved) ∧ ∃ r ∈ d.decisions, r.id = e.decisionId ∧
      r.proposalId = e.proposalId
  fits : calm → ∀ p ∈ d.proposals, ∀ c ∈ d.commands, c.id = p.commandId → Fits d p c.status

lemma mem_setCommandStatus {d : Db} {i : ℕ} {st : CommandStatus} {c : Command} :
    c ∈ (Db.setCommandStatus i st d).commands ↔ (c ∈ d.commands ∧ c.id ≠ i) ∨
      ∃ y ∈ d.commands, y.id = i ∧ c = { y with status := st } := by
  rw [Db.setCommandStatus, List.mem_map]
  constructor
  · rintro ⟨y, hy, rfl⟩
    split
    · exact .inr ⟨y, hy, ‹_›, rfl⟩
    · exact .inl ⟨hy, ‹_›⟩
  · rintro (⟨hc, hi⟩ | ⟨y, hy, hi, rfl⟩)
    · exact ⟨c, hc, if_neg hi⟩
    · exact ⟨y, hy, if_pos hi⟩

section Orderly

variable {calm : Prop} {d : Db} {held : List Lock}

lemma Orderly.proposal_unique (h : Orderly calm d) {p p' : Proposal} (hp : p ∈ d.proposals)
    (hp' : p' ∈ d.proposals) (hid : p.id = p'.id) : p = p' :=
  List.inj_on_of_nodup_map h.proposalIds hp hp' hid

lemma Orderly.proposal_of_command (h : Orderly calm d) {p p' : Proposal} (hp : p ∈ d.proposals)
    (hp' : p' ∈ d.proposals) (hc : p.commandId = p'.commandId) : p = p' :=
  List.inj_on_of_nodup_map h.proposalCommands hp hp' hc

lemma Orderly.approved (h : Orderly calm d) {e : Execution} {p : Proposal}
    (he : e ∈ d.executions) (hp : p ∈ d.proposals) (hid : p.id = e.proposalId) :
    p.status = .approved := by
  obtain ⟨⟨p', hp', hid', ha⟩, -⟩ := h.executed e he
  rw [h.proposal_unique hp hp' (hid.trans hid'.symm)]
  exact ha

/-- An approved proposal whose command is still to be claimed. -/
lemma Orderly.unclaimed (h : Orderly calm d) {q : Executions.Create} {p : Proposal}
    (hq : Claiming d held q p) : ∀ e ∈ d.executions, e.proposalId ≠ p.id := by
  intro e he hp
  obtain ⟨-, r, hr, hrid, hrp⟩ := h.executed e he
  obtain ⟨r', hr', hrid', hrp'⟩ := hq.decision
  have hrr : r = r' := List.inj_on_of_nodup_map h.decisionProposals hr hr'
    (by rw [hrp, hrp', hp])
  exact (hq.fresh e he).2.1 (by rw [← hrid, hrr, hrid'])

/-- The commands of the other proposals are not the one of `p`. -/
lemma Orderly.other (h : Orderly calm d) {p p' : Proposal} (hp : p ∈ d.proposals)
    (hp' : p' ∈ d.proposals) (hne : p' ≠ p) : p'.commandId ≠ p.commandId :=
  fun hc => hne (h.proposal_of_command hp' hp hc)

/-- A report is let through only for a command whose proposal, if any, has expired. -/
lemma report_expired {q : Commands.Update} {p : Proposal} {st : CommandStatus}
    (ha : canTransition st q.status.toStatus) (hr : q.status = .failed → st ≠ .executing)
    (hf : Fits d p st) : p.status = .expired := by
  unfold Fits at hf
  cases hp : p.status with
  | expired => rfl
  | «open» =>
    simp only [hp] at hf
    subst hf
    cases hs : q.status <;> rw [hs] at ha <;> exact absurd ha (by decide)
  | rejected =>
    simp only [hp] at hf
    subst hf
    cases hs : q.status <;> rw [hs] at ha <;> exact absurd ha (by decide)
  | approved =>
    simp only [hp] at hf
    rcases hf with ⟨rfl, -⟩ | ⟨e, -, -, rfl⟩
    · cases hs : q.status <;> rw [hs] at ha <;> exact absurd ha (by decide)
    · cases he : e.status <;> cases hs : q.status <;> rw [he, hs] at ha <;>
        first
          | exact absurd ha (by decide)
          | exact absurd (by rw [he]; rfl) (hr hs)

lemma Orderly.report {q : Commands.Update} {c : Command} (h : Orderly calm d)
    (hq : Reporting calm d held q c) : Orderly calm (Effect.apply (.report q c) d) where
  commandIds := (commandIds_set ..).symm ▸ h.commandIds
  proposalIds := h.proposalIds
  proposalCommands := h.proposalCommands
  decisionIds := h.decisionIds
  decisionProposals := h.decisionProposals
  executionIds := h.executionIds
  executionProposals := h.executionProposals
  executionKeys := h.executionKeys
  decided := h.decided
  executed := h.executed
  fits hcalm p hp x hx hxp := by
    rcases mem_setCommandStatus.mp hx with ⟨hx, -⟩ | ⟨y, hy, hyc, rfl⟩
    · exact h.fits hcalm p hp x hx hxp
    · have hf := h.fits hcalm p hp y hy hxp
      rw [hq.status y hy hyc] at hf
      have he := report_expired hq.allowed (hq.running hcalm) hf
      unfold Fits
      rw [he]
      trivial

lemma Orderly.propose {q : Proposals.Create} (h : Orderly calm d) (hq : Proposing d held q) :
    Orderly calm (Effect.apply (.propose q) d) where
  commandIds := (commandIds_set ..).symm ▸ h.commandIds
  proposalIds := by
    show ((d.proposals ++ [Proposals.newProposal q]).map (·.id)).Nodup
    rw [List.map_append, List.map_singleton]
    refine List.nodup_append.mpr ⟨h.proposalIds, by simp, fun a ha b hb => ?_⟩
    obtain ⟨p, hp, rfl⟩ := List.mem_map.mp ha
    rw [List.mem_singleton.mp hb]
    exact (hq.fresh p hp).1
  proposalCommands := by
    show ((d.proposals ++ [Proposals.newProposal q]).map (·.commandId)).Nodup
    rw [List.map_append, List.map_singleton]
    refine List.nodup_append.mpr ⟨h.proposalCommands, by simp, fun a ha b hb => ?_⟩
    obtain ⟨p, hp, rfl⟩ := List.mem_map.mp ha
    rw [List.mem_singleton.mp hb]
    exact (hq.fresh p hp).2
  decisionIds := h.decisionIds
  decisionProposals := h.decisionProposals
  executionIds := h.executionIds
  executionProposals := h.executionProposals
  executionKeys := h.executionKeys
  decided r hr := by
    obtain ⟨p, hp, hid, ho⟩ := h.decided r hr
    exact ⟨p, List.mem_append_left _ hp, hid, ho⟩
  executed e he := by
    obtain ⟨⟨p, hp, hid, ha⟩, hr⟩ := h.executed e he
    exact ⟨⟨p, List.mem_append_left _ hp, hid, ha⟩, hr⟩
  fits hcalm p hp x hx hxp := by
    rcases List.mem_append.mp hp with hp | hp
    · rcases mem_setCommandStatus.mp hx with ⟨hx, -⟩ | ⟨y, hy, hyc, rfl⟩
      · exact h.fits hcalm p hp x hx hxp
      · exact absurd (hxp.symm.trans hyc) (hq.fresh p hp).2
    · rw [List.mem_singleton.mp hp] at hxp ⊢
      rcases mem_setCommandStatus.mp hx with ⟨-, hne⟩ | ⟨y, hy, hyc, rfl⟩
      · exact absurd hxp hne
      · rfl

lemma Orderly.settle {q : Decisions.Create} {p : Proposal} (h : Orderly calm d)
    (hq : Deciding d held q p) : Orderly calm (Effect.apply (.settle q p) d) := by
  have hundecided : ∀ r ∈ d.decisions, r.proposalId ≠ q.proposalId := by
    intro r hr hrp
    obtain ⟨p', hp', hid, ho⟩ := h.decided r hr
    rw [h.proposal_unique hp' hq.mem (by rw [hid, hrp, hq.id])] at ho
    exact ho hq.isOpen
  -- a row that is not open is not the one that changes
  have hkept : ∀ p' ∈ d.proposals, p'.status ≠ .open →
      p' ∈ (Effect.apply (.settle q p) d).proposals := by
    intro p' hp' ho
    refine Decisions.mem_settle_proposals.mpr (.inl ⟨hp', fun hid => ho ?_⟩)
    rw [h.proposal_unique hp' hq.mem (hid.trans hq.id.symm)]
    exact hq.isOpen
  have hkeys : ∀ {α} (g : Proposal → α), (∀ x st, g { x with status := st } = g x) →
      (Effect.apply (.settle q p) d).proposals.map g = d.proposals.map g := by
    intro α g hg
    rw [Effect.apply, Decisions.settle_proposals, List.map_map]
    refine List.map_congr_left fun x _ => ?_
    simp only [Function.comp_apply]
    split
    · exact hg x _
    · rfl
  refine ⟨(commandIds_set ..).symm ▸ h.commandIds, ?_, ?_, ?_, ?_, h.executionIds,
    h.executionProposals, h.executionKeys, fun r hr => ?_, fun e he => ?_,
    fun hcalm x hx c hc hcx => ?_⟩
  · rw [hkeys _ fun _ _ => rfl]
    exact h.proposalIds
  · rw [hkeys _ fun _ _ => rfl]
    exact h.proposalCommands
  · show ((d.decisions ++ [Decisions.newDecision q]).map (·.id)).Nodup
    rw [List.map_append, List.map_singleton]
    refine List.nodup_append.mpr ⟨h.decisionIds, by simp, fun a ha b hb => ?_⟩
    obtain ⟨r, hr, rfl⟩ := List.mem_map.mp ha
    rw [List.mem_singleton.mp hb]
    exact hq.fresh r hr
  · show ((d.decisions ++ [Decisions.newDecision q]).map (·.proposalId)).Nodup
    rw [List.map_append, List.map_singleton]
    refine List.nodup_append.mpr ⟨h.decisionProposals, by simp, fun a ha b hb => ?_⟩
    obtain ⟨r, hr, rfl⟩ := List.mem_map.mp ha
    rw [List.mem_singleton.mp hb]
    exact hundecided r hr
  · rcases List.mem_append.mp hr with hr | hr
    · obtain ⟨p', hp', hid, ho⟩ := h.decided r hr
      exact ⟨p', hkept p' hp' ho, hid, ho⟩
    · rw [List.mem_singleton.mp hr]
      refine ⟨_, Decisions.mem_settle_proposals.mpr (.inr ⟨p, hq.mem, hq.id, rfl⟩), hq.id, ?_⟩
      cases q.decisionType <;> simp [Decisions.finalProposalStatus]
  · obtain ⟨⟨p', hp', hid, ha⟩, r, hr, hrid⟩ := h.executed e he
    exact ⟨⟨p', hkept p' hp' (by rw [ha]; decide), hid, ha⟩, r, List.mem_append_left _ hr, hrid⟩
  · rcases Decisions.mem_settle_proposals.mp hx with ⟨hx, hid⟩ | ⟨y, hy, hid, rfl⟩
    · have hne : x ≠ p := fun hxp => hid (by rw [hxp, hq.id])
      rcases mem_setCommandStatus.mp hc with ⟨hc, -⟩ | ⟨y, -, hyc, rfl⟩
      · exact h.fits hcalm x hx c hc hcx
      · exact absurd (hcx.symm.trans hyc) (h.other hq.mem hx hne)
    · obtain rfl : y = p := h.proposal_unique hy hq.mem (hid.trans hq.id.symm)
      rcases mem_setCommandStatus.mp hc with ⟨-, hne⟩ | ⟨c, -, -, rfl⟩
      · exact absurd hcx hne
      · unfold Fits
        cases q.decisionType with
        | reject => rfl
        | approve =>
          refine .inl ⟨rfl, fun e he hep => ?_⟩
          have ha := h.approved he hy hep.symm
          rw [hq.isOpen] at ha
          cases ha

lemma Orderly.claim {q : Executions.Create} {p : Proposal} (h : Orderly calm d)
    (hq : Claiming d held q p) : Orderly calm (Effect.apply (.claim q p) d) where
  commandIds := (commandIds_set ..).symm ▸ h.commandIds
  proposalIds := h.proposalIds
  proposalCommands := h.proposalCommands
  decisionIds := h.decisionIds
  decisionProposals := h.decisionProposals
  executionIds := by
    show ((d.executions ++ [Executions.newExecution q]).map (·.id)).Nodup
    rw [List.map_append, List.map_singleton]
    refine List.nodup_append.mpr ⟨h.executionIds, by simp, fun a ha b hb => ?_⟩
    obtain ⟨e, he, rfl⟩ := List.mem_map.mp ha
    rw [List.mem_singleton.mp hb]
    exact (hq.fresh e he).1
  executionProposals := by
    show ((d.executions ++ [Executions.newExecution q]).map (·.proposalId)).Nodup
    rw [List.map_append, List.map_singleton]
    refine List.nodup_append.mpr ⟨h.executionProposals, by simp, fun a ha b hb => ?_⟩
    obtain ⟨e, he, rfl⟩ := List.mem_map.mp ha
    rw [List.mem_singleton.mp hb, show (Executions.newExecution q).proposalId = p.id from
      hq.id.symm]
    exact h.unclaimed hq e he
  executionKeys := by
    show ((d.executions ++ [Executions.newExecution q]).map (·.idempotencyKey)).Nodup
    rw [List.map_append, List.map_singleton]
    refine List.nodup_append.mpr ⟨h.executionKeys, by simp, fun a ha b hb => ?_⟩
    obtain ⟨e, he, rfl⟩ := List.mem_map.mp ha
    rw [List.mem_singleton.mp hb]
    exact (hq.fresh e he).2.2
  decided := h.decided
  executed e he := by
    rcases List.mem_append.mp he with he | he
    · exact h.executed e he
    · rw [List.mem_singleton.mp he]
      obtain ⟨r, hr, hid, hrp⟩ := hq.decision
      exact ⟨⟨p, hq.mem, hq.id, hq.approved⟩, r, hr, hid, hrp.trans hq.id⟩
  fits hcalm x hx c hc hcx := by
    by_cases hxp : x = p
    · subst hxp
      unfold Fits
      rw [hq.approved]
      refine .inr ⟨Executions.newExecution q, List.mem_append_right _ (by simp), hq.id.symm, ?_⟩
      rcases mem_setCommandStatus.mp hc with ⟨-, hne⟩ | ⟨y, -, -, rfl⟩
      · exact absurd hcx hne
      · rfl
    · have hf : Fits d x c.status := by
        rcases mem_setCommandStatus.mp hc with ⟨hc, -⟩ | ⟨y, -, hyc, rfl⟩
        · exact h.fits hcalm x hx c hc hcx
        · exact absurd (hcx.symm.trans hyc) (h.other hq.mem hx hxp)
      unfold Fits at hf ⊢
      split <;> rename_i hs <;> simp only [hs] at hf
      · exact hf
      · exact hf
      · trivial
      · rcases hf with ⟨hst, hn⟩ | ⟨e, he, hep⟩
        · refine .inl ⟨hst, fun e he hep => ?_⟩
          rcases List.mem_append.mp he with he | he
          · exact hn e he hep
          · rw [List.mem_singleton.mp he] at hep
            exact hxp (h.proposal_unique hx hq.mem (hep.symm.trans hq.id.symm))
        · exact .inr ⟨e, List.mem_append_left _ he, hep⟩

lemma Orderly.finish {q : Executions.Update} {e : Execution} {p : Proposal} (h : Orderly calm d)
    (hq : Finishing d held q e p) : Orderly calm (Effect.apply (.finish q e p) d) := by
  have hkeys : ∀ {α} (g : Execution → α), (∀ x, g (Executions.withResult q x) = g x) →
      (Effect.apply (.finish q e p) d).executions.map g = d.executions.map g := by
    intro α g hg
    show (d.executions.map _).map g = _
    rw [List.map_map]
    refine List.map_congr_left fun x _ => ?_
    simp only [Function.comp_apply]
    split
    · exact hg x
    · rfl
  refine ⟨(commandIds_set ..).symm ▸ h.commandIds, h.proposalIds, h.proposalCommands,
    h.decisionIds, h.decisionProposals, ?_, ?_, ?_, h.decided, fun x hx => ?_,
    fun hcalm x hx c hc hcx => ?_⟩
  · rw [hkeys _ fun _ => rfl]
    exact h.executionIds
  · rw [hkeys _ fun _ => rfl]
    exact h.executionProposals
  · rw [hkeys _ fun _ => rfl]
    exact h.executionKeys
  · obtain ⟨y, hy, rfl⟩ := List.mem_map.mp hx
    split <;> exact h.executed y hy
  · by_cases hxp : x = p
    · subst hxp
      unfold Fits
      rw [h.approved hq.mem hq.proposal hq.proposalId]
      refine .inr ⟨Executions.withResult q e, List.mem_map.mpr ⟨e, hq.mem, if_pos hq.id⟩,
        hq.proposalId.symm, ?_⟩
      rcases mem_setCommandStatus.mp hc with ⟨-, hne⟩ | ⟨y, -, -, rfl⟩
      · exact absurd hcx hne
      · cases hs : q.status <;> simp [Executions.withResult, hs, commandStatusOf,
          Executions.Outcome.toStatus, Executions.Outcome.toCommandStatus]
    · have hf : Fits d x c.status := by
        rcases mem_setCommandStatus.mp hc with ⟨hc, -⟩ | ⟨y, -, hyc, rfl⟩
        · exact h.fits hcalm x hx c hc hcx
        · exact absurd (hcx.symm.trans hyc) (h.other hq.proposal hx hxp)
      unfold Fits at hf ⊢
      split <;> rename_i hs <;> simp only [hs] at hf
      · exact hf
      · exact hf
      · trivial
      · rcases hf with ⟨hst, hn⟩ | ⟨y, hy, hyp, hst⟩
        · refine .inl ⟨hst, fun z hz hzp => ?_⟩
          obtain ⟨y, hy, rfl⟩ := List.mem_map.mp hz
          refine hn y hy ?_
          split at hzp <;> exact hzp
        · have hne : y.id ≠ q.executionId := by
            intro hid
            obtain rfl : y = e := List.inj_on_of_nodup_map h.executionIds hy hq.mem
              (hid.trans hq.id.symm)
            exact hxp (h.proposal_unique hx hq.proposal (by rw [hq.proposalId, hyp]))
          exact .inr ⟨y, List.mem_map.mpr ⟨y, hy, if_neg hne⟩, hyp, hst⟩

/-- **Every committed request keeps the tables orderly.** -/
lemma Orderly.apply {f : Effect} (h : Orderly calm d) (hf : f.Enabled calm d held) :
    Orderly calm (f.apply d) := by
  cases f with
  | none => exact h
  | report q c => exact h.report hf
  | propose q => exact h.propose hf.1
  | settle q p => exact h.settle hf.1
  | claim q p => exact h.claim hf.1
  | finish q e p => exact h.finish hf.1

/-- **Every committed request moves its command forward.** -/
lemma Orderly.advances {f : Effect} (h : Orderly calm d) (hcalm : calm)
    (hf : f.Enabled calm d held) : Advances d (f.apply d) := by
  cases f with
  | none => exact .refl d
  | report q c =>
    refine advances_set fun x hx hid => ?_
    rw [hf.status x hx hid]
    exact rank_lt_of_canTransition hf.allowed
  | propose q =>
    refine advances_set (d := Proposals.insertItems q (Proposals.insertProposal q d))
      fun x hx hid => ?_
    rw [hf.2.2 hcalm x hx hid]
    decide
  | settle q p =>
    refine advances_set (d := Db.setProposalStatus _ _ (Decisions.insertDecision q d))
      fun x hx hid => ?_
    have hfit := h.fits hcalm p hf.1.mem x hx hid
    unfold Fits at hfit
    rw [hf.1.isOpen] at hfit
    rw [show x.status = .waitingApproval from hfit]
    cases q.decisionType <;> decide
  | claim q p =>
    refine advances_set (d := Executions.insertExecution q d) fun x hx hid => ?_
    have hfit := h.fits hcalm p hf.1.mem x hx hid
    unfold Fits at hfit
    rw [hf.1.approved] at hfit
    rcases hfit with ⟨hst, -⟩ | ⟨e, he, hep, -⟩
    · rw [hst]
      decide
    · exact absurd hep (h.unclaimed hf.1 e he)
  | finish q e p =>
    refine advances_set (d := Executions.storeResult q d) fun x hx hid => ?_
    have hfit := h.fits hcalm p hf.1.proposal x hx hid
    unfold Fits at hfit
    rw [h.approved hf.1.mem hf.1.proposal hf.1.proposalId] at hfit
    rcases hfit with ⟨-, hn⟩ | ⟨e', he', hep, hst⟩
    · exact absurd hf.1.proposalId.symm (hn e hf.1.mem)
    · have hee : e' = e := List.inj_on_of_nodup_map h.executionProposals he' hf.1.mem
        (hep.trans hf.1.proposalId)
      rw [hst, hee, hf.1.status]
      cases q.status <;> decide

end Orderly

end MouseKeeper.Server
