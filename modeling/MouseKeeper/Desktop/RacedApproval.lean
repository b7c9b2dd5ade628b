import MouseKeeper.Desktop.ApprovalCourse
import Mathlib.Data.Prod.Lex

/-!
Approvals in the chat that are raced by ticks and repeated after a fault.

The copy of the command that the chat has from the confirmation is older than its permit, and a
proposal that has been delivered is not found again by a second call. Where neither matters, a call
that is repeated ends with the decision and the execution of a call without a fault.
-/

namespace MouseKeeper.Desktop.ChatApproval

open MouseKeeper.Server
open Commands (AgentProposalItem ManagedRoot parsePayload)
open Transport (AgentError Fault httpError)

variable {Θ : Type}

/-! ### What is claimed -/

def Stage.isEnded : Stage → Bool
  | .ended _ => true
  | _ => false

namespace State

variable (draft : Draft Θ) (s t : State Θ)

/-- No call is going on. -/
def Quiet : Prop := ∀ c ∈ s.calls, c.stage.isEnded = true

/-- The draft can be confirmed with these arguments. -/
structure Accepts (a : Args) : Prop where
  valid : a.isValid = true
  room : a.roomId = draft.command.roomId
  key : s.server.confirmKey = none ∨ s.server.confirmKey = some a.confirmKey

/-- The call is made with nothing else going on and without a fault, and it ends. -/
def Alone (a : Args) : Prop :=
  ∃ n, Machine.run (State.step draft) s
      (.approve a :: List.replicate n (.go s.calls.length)) = some t ∧
    ∃ c, t.calls[s.calls.length]? = some c ∧ c.stage.isEnded = true

/-- The decisions and the executions are the same, and so are the files. -/
structure SameWork : Prop where
  decisions : s.server.decisions = t.server.decisions
  executions : s.server.executions.map Execution.decision =
    t.server.executions.map Execution.decision
  executed : s.executed = t.executed
  files : s.files = t.files

/-- What is claimed of the calls and ticks that have been at work on the command. -/
structure Settles (files : Θ) : Prop where
  proposals : s.server.proposals.length ≤ 1
  executed : s.executed.length ≤ 1
  /-- `FAILED` is reported under the status that the server has, or has it already. -/
  failures : ∀ f ∈ s.failures, f.2 = f.1 ∨ f.2 = .failed
  retried : s.Quiet → ∀ a, s.Accepts draft a → ∃ t ref,
    s.Alone draft t a ∧ (State.init files).Alone draft ref a ∧ t.SameWork ref

/-! ### The condition -/

/-- The proposal has not been delivered, or its batch has been run. -/
def resting : Bool := s.server.proposals.isEmpty || !s.executed.isEmpty

/-- A call of the chat has yet to ask for the proposal. -/
def awaited : Bool := s.calls.any fun c =>
  match c.stage with
  | .flush _ false | .openProposals => true
  | _ => false

def processing : Bool := s.calls.any fun c =>
  match c.stage with
  | .work _ => true
  | _ => false

/-- The row is a proposal, the first to be delivered. -/
def delivers (row : ℕ) : Bool :=
  s.server.proposals.isEmpty &&
    match s.rows[row]? with
    | some ⟨.command (.proposal _), _⟩ => true
    | _ => false

end State

/-- A copy of the command is used while the command has its status, no request of the processing
and, once the proposal is delivered, none of the decision and the execution is lost, the proposal
reaches the server while a call of the chat is waiting for it, and the batch is run while no other
call processes the command. -/
def undisturbed (s : State Θ) : Event → Bool
  | .approve _ | .tick => true
  | .crash => s.resting
  | .go i =>
    match s.calls[i]? with
    | some ⟨_, .tryScan (some copy)⟩ =>
      s.scan.isSome || !Commands.isProcessableCommandStatus copy || copy = s.server.status
    | some ⟨.chat _, .tryWrite⟩ => s.write.isNone || s.resting || !s.server.executions.isEmpty
    | some ⟨_, .flush (some (row :: _)) _⟩ => !s.delivers row || s.awaited
    | some ⟨_, .executing (.execute _ _ _ _)⟩ => !s.processing
    | _ => true
  | .lose i f served =>
    match s.calls[i]? with
    | some ⟨_, .confirm⟩ | some ⟨_, .poll⟩ => true
    | some ⟨_, .work _⟩ => false
    | some ⟨_, .flush (some (row :: _)) _⟩ =>
      !s.delivers row ||
        if served then s.awaited else f.error.code = .transportUnavailable
    | _ => s.resting

/-! ### The invariant -/

variable (draft : Draft Θ) (files : Θ)

def Shared.level (x : Shared Θ) : ℕ :=
  x.server.proposals.length + x.server.decisions.length + x.server.executions.length +
    x.executed.length

/-- The status under which the command is processed. -/
def Work.under : Work → CommandStatus
  | .begin copy => copy
  | .deliver => .queued
  | .analyze => .delivered
  | .lookup | .propose => .analyzing

/-- A claim under the one status is not refused where the server has the other. -/
def Claimable : CommandStatus → CommandStatus → Prop
  | .queued, status => status = .queued
  | .delivered, status => status = .delivered
  | _, status => status ≠ .queued ∧ status ≠ .delivered

/-- The command is processed as the server has it, with the files as they were. -/
def Stage.Fits (x : Shared Θ) : Stage → Prop
  | .tryScan (some _) => x.server.confirmKey ≠ none
  | .work w => x.server.confirmKey ≠ none ∧
    (Commands.isProcessableCommandStatus w.under = true →
      x.executed = [] ∧ Claimable w.under x.server.status)
  | _ => True

/-- The call brings the command from the level to the next. -/
def Call.Carries (c : Call) : ℕ → Prop
  | 1 => (∃ batch, c.stage = .flush batch false) ∨ c.stage = .openProposals ∨
    (∃ q, c.stage = .getProposal q) ∨ ∃ q items, c.stage = .createDecision q items
  | 2 => (∃ a, c = ⟨.chat a, .tryWrite⟩) ∨ c.stage = .executing .pending ∨
    ∃ d todo, c.stage = .executing (.create (d :: todo))
  | 3 => (∃ e d todo, c.stage = .executing (.lookup e d todo)) ∨
    ∃ root e d todo, c.stage = .executing (.execute root e d todo)
  | _ => False

def Carried (level : ℕ) (cs : List Call) : Prop :=
  level ∈ [1, 2, 3] → ∃ c ∈ cs, c.Carries level

/-- What the calls share is as it is without faults. -/
structure Regular (x : Shared Θ) : Prop where
  fresh : x.level = 0 → Commands.isProcessableCommandStatus x.server.status = true ∨
    ¬ draft.Fruitful files ∧ x.server.status = .failed
  gone : 1 ≤ x.level → Commands.isProcessableCommandStatus x.server.status = false
  rows : x.level = 0 → draft.Fruitful files → x.rows = [] ∨
    x.rows = [⟨.command (.proposal (draft.items files)), .pending⟩] ∧
      x.server.status = .analyzing
  failures : ∀ f ∈ x.failures, f.2 = f.1 ∨ f.2 = .failed

structure Calm (s : State Θ) : Prop where
  safe : ∃ p, Safe draft files none p s
  regular : Regular draft files s.toShared
  fits : ∀ c ∈ s.calls, c.stage.Fits s.toShared
  carried : Carried s.level s.calls

variable {draft files} {p p' : Progress} {s t : State Θ} {x y : Shared Θ} {i ℓ : ℕ}
  {caller : Caller} {c c₀ : Call} {g g₀ : Stage}

lemma Holds.level_eq (h : Holds draft files p x) : x.level = p.level := by
  rw [Shared.level, h.proposals, h.decisions, h.executions, h.executed]
  cases p <;> rfl

lemma Carried.set {cs : List Call} (h : Carried ℓ cs) (hi : cs[i]? = some c₀)
    (hc : c₀.Carries ℓ → c.Carries ℓ) : Carried ℓ (cs.set i c) := by
  intro hl
  obtain ⟨c', hc', hcarries⟩ := h hl
  obtain ⟨j, hj⟩ := List.mem_iff_getElem?.mp hc'
  by_cases hij : i = j
  · subst hij
    cases hi.symm.trans hj
    exact ⟨c, List.mem_set (List.getElem?_eq_some_iff.mp hi).1 c, hc hcarries⟩
  · refine ⟨c', List.mem_of_getElem? (i := j) ?_, hcarries⟩
    rw [List.getElem?_set_ne hij, hj]

lemma Carried.new {cs : List Call} (hi : cs[i]? = some c₀) (hc : c.Carries ℓ) :
    Carried ℓ (cs.set i c) :=
  fun _ => ⟨c, List.mem_set (List.getElem?_eq_some_iff.mp hi).1 c, hc⟩

/-- For the other calls the command remains as claimable as it was. -/
def SameClaim (a b : CommandStatus) : Prop :=
  b = a ∨ (a ≠ .queued ∧ a ≠ .delivered) ∧ b ≠ .queued ∧ b ≠ .delivered

lemma Claimable.same {under a b : CommandStatus} (h : Claimable under a) (hs : SameClaim a b) :
    Claimable under b := by
  rcases hs with rfl | ⟨ha, hb⟩
  · exact h
  · cases under with
    | queued => exact absurd h ha.1
    | delivered => exact absurd h ha.2
    | _ => exact hb

lemma processing_eq_false (h : s.processing = false) (hc : c ∈ s.calls) (w : Work) :
    c.stage ≠ .work w := by
  intro hw
  have hne := (List.any_eq_false.mp h) c hc
  rw [hw] at hne
  exact hne rfl

/-- A call goes on. -/
lemma Calm.goTo (h : Calm draft files s) (hi : s.calls[i]? = some ⟨caller, g₀⟩)
    (hsafe : ∃ p, Safe draft files none p (t.goTo i caller g)) (ht : t.calls = s.calls)
    (hr : Regular draft files t.toShared)
    (hk : s.server.confirmKey ≠ none → t.server.confirmKey ≠ none)
    (hothers : g₀.scans = true ∨ s.processing = false ∨
      t.executed = s.executed ∧ SameClaim s.server.status t.server.status)
    (hfits : g.Fits t.toShared)
    (hcarried : Carried t.level (s.calls.set i ⟨caller, g⟩)) :
    Calm draft files (t.goTo i caller g) := by
  refine ⟨hsafe, hr, fun c hc => ?_, ?_⟩
  · rw [State.goTo, ht] at hc
    rcases mem_set hc with rfl | ⟨j, hj, hcj⟩
    · exact hfits
    have hcs : c ∈ s.calls := List.mem_of_getElem? hcj
    have hfit := h.fits c hcs
    cases hst : c.stage with
    | work w =>
      rw [hst] at hfit
      refine ⟨hk hfit.1, fun hw => ?_⟩
      rcases hothers with hscan | hnone | ⟨hexecuted, hsame⟩
      · obtain ⟨p, hp⟩ := h.safe
        exact absurd (Held.unique hp.scan hcj (by rw [hst]; rfl) hi hscan) hj
      · exact absurd hst (processing_eq_false hnone hcs w)
      · obtain ⟨hx, hclaim⟩ := hfit.2 hw
        exact ⟨hexecuted.trans hx, hclaim.same hsame⟩
    | tryScan copy =>
      rw [hst] at hfit
      cases copy with
      | none => trivial
      | some copy => exact hk hfit
    | _ => trivial
  · rw [State.goTo, ht]
    exact hcarried

/-- Nothing that is shared changes. -/
lemma Calm.move (h : Calm draft files s) (hi : s.calls[i]? = some ⟨caller, g₀⟩)
    (hsafe : ∃ p, Safe draft files none p (s.goTo i caller g)) (hfits : g.Fits s.toShared)
    (hcarries : Call.Carries ⟨caller, g₀⟩ s.level → Call.Carries ⟨caller, g⟩ s.level) :
    Calm draft files (s.goTo i caller g) :=
  h.goTo hi hsafe rfl h.regular id (.inr (.inr ⟨rfl, .inl rfl⟩)) hfits
    (h.carried.set hi hcarries)

/-! ### Commands -/

lemma not_carries_work {w : Work} : ¬ Call.Carries ⟨caller, .work w⟩ ℓ := by
  rcases ℓ with _ | _ | _ | _ | ℓ <;> simp [Call.Carries]

lemma isProcessable_iff {status : CommandStatus} :
    Commands.isProcessableCommandStatus status = true ↔
      status = .queued ∨ status = .delivered ∨ status = .analyzing := by
  cases status <;> decide

/-- Where no proposal comes of it, the command is at its beginning. -/
lemma level_of_not_fruitful (h : Safe draft files none p s) (hn : ¬ draft.Fruitful files) :
    s.level = 0 := by
  rw [h.holds.level_eq]
  by_contra hl
  exact hn (h.holds.fruitful (Nat.pos_of_ne_zero hl))

/-- The server has the status under which the command is processed, or has `FAILED`. -/
lemma Regular.status_eq (h : Regular draft files x) (hl : x.level = 0) {under : CommandStatus}
    (hu : Commands.isProcessableCommandStatus under = true)
    (hc : Claimable under x.server.status) :
    x.server.status = under ∨ ¬ draft.Fruitful files ∧ x.server.status = .failed := by
  rcases h.fresh hl with hp | hfailed
  · left
    rcases isProcessable_iff.mp hu with rfl | rfl | rfl
    · exact hc
    · exact hc
    · exact (isProcessable_iff.mp hp).resolve_left hc.1 |>.resolve_left hc.2
  · exact .inr hfailed

/-- `FAILED` is reported where no proposal comes of the command. -/
lemma Regular.fail (h : Regular draft files x) (hn : ¬ draft.Fruitful files)
    {under : CommandStatus} (hu : x.server.status = under ∨ x.server.status = .failed) :
    Regular draft files { x with
      rows := enqueue x.rows (.command .failed)
      failures := x.failures ++ [(under, x.server.status)] } where
  fresh := h.fresh
  gone := h.gone
  rows := fun _ hf => absurd hf hn
  failures := fun f hf => by
    rcases List.mem_append.mp hf with hf | hf
    · exact h.failures f hf
    · rw [List.mem_singleton.mp hf]
      exact hu

section

variable {w : Work} (h : Calm draft files s) (hi : s.calls[i]? = some ⟨caller, .work w⟩)
  (ht : SameCalls s t) (hlevel : t.level = s.level)
  (hk : s.server.confirmKey ≠ none → t.server.confirmKey ≠ none)

include h hi ht hlevel hk

lemma Calm.finishWork (hr : Regular draft files t.toShared) {status : CommandProcessingStatus}
    (hsafe : ∃ p, Safe draft files none p (t.finishWork i caller status)) :
    Calm draft files (t.finishWork i caller status) := by
  have hcarried : ∀ g, Carried t.level (s.calls.set i ⟨caller, g⟩) := by
    intro g
    rw [hlevel]
    exact h.carried.set hi fun hc => absurd hc not_carries_work
  unfold State.finishWork at hsafe ⊢
  split at hsafe
  · exact h.goTo hi hsafe ht.calls hr hk (.inl rfl) trivial (hcarried _)
  · split at hsafe <;> exact h.goTo hi hsafe ht.calls hr hk (.inl rfl) trivial (hcarried _)

lemma Calm.failWork (hr : Regular draft files t.toShared) (hn : ¬ draft.Fruitful files)
    {under : CommandStatus} (hu : t.server.status = under ∨ t.server.status = .failed)
    {message : String} (hsafe : ∃ p, Safe draft files none p (t.failWork i caller under message)) :
    Calm draft files (t.failWork i caller under message) :=
  h.finishWork hi (t := { t with
    rows := enqueue t.rows (.command .failed)
    failures := t.failures ++ [(under, t.server.status)] })
    ⟨ht.calls, ht.scan, ht.write⟩ hlevel hk (hr.fail hn hu) hsafe

lemma Calm.claimed (hr : Regular draft files t.toShared)
    (hfits : (Stage.work .lookup).Fits t.toShared)
    (hsafe : ∃ p, Safe draft files none p (t.claimed draft i caller)) :
    Calm draft files (t.claimed draft i caller) := by
  have hcarried : Carried t.level (s.calls.set i ⟨caller, .work .lookup⟩) := by
    rw [hlevel]
    exact h.carried.set hi fun hc => absurd hc not_carries_work
  unfold State.claimed at hsafe ⊢
  split_ifs at hsafe with hh
  · rw [if_pos hh]
    exact h.goTo hi hsafe ht.calls hr hk (.inl rfl) hfits hcarried
  · rw [if_neg hh]
    have hn : ¬ draft.Fruitful files := fun hf => hh hf.handler
    obtain ⟨p, hp⟩ := h.safe
    have hl : t.level = 0 := hlevel.trans (level_of_not_fruitful hp hn)
    have hu := hr.status_eq hl (by decide) (hfits.2 (by decide)).2
    exact h.failWork hi ht hlevel hk hr hn (hu.imp_right And.right) hsafe

lemma Calm.claimCommandForAnalysis (hr : Regular draft files t.toShared) {copy : CommandStatus}
    (hcopy : Commands.isProcessableCommandStatus copy = true)
    (hfits : (Stage.work (.begin copy)).Fits t.toShared)
    (hsafe : ∃ p, Safe draft files none p (t.claimCommandForAnalysis draft i caller copy)) :
    Calm draft files (t.claimCommandForAnalysis draft i caller copy) := by
  have hcarried : ∀ g, Carried t.level (s.calls.set i ⟨caller, g⟩) := by
    intro g
    rw [hlevel]
    exact h.carried.set hi fun hc => absurd hc not_carries_work
  rcases isProcessable_iff.mp hcopy with rfl | rfl | rfl
  · exact h.goTo hi hsafe ht.calls hr hk (.inl rfl) hfits (hcarried _)
  · exact h.goTo hi hsafe ht.calls hr hk (.inl rfl) hfits (hcarried _)
  · exact h.claimed hi ht hlevel hk hr hfits hsafe

end

lemma not_fruitful_of_plan {message : String} (h : draft.plan files = .error message) :
    ¬ draft.Fruitful files := by
  intro hf
  cases h.symm.trans hf.plan

lemma Calm.beginWork (h : Calm draft files s) {copy : CommandStatus}
    (hi : s.calls[i]? = some ⟨caller, .work (.begin copy)⟩)
    (hsafe : ∃ p, Safe draft files none p (s.beginWork draft i caller copy)) :
    Calm draft files (s.beginWork draft i caller copy) := by
  have ht : SameCalls s s := ⟨rfl, rfl, rfl⟩
  have hfits := h.fits _ (List.mem_of_getElem? hi)
  unfold State.beginWork at hsafe ⊢
  split_ifs at hsafe ⊢ with hstatus hhandler hsupported
  · exact h.finishWork hi ht rfl id h.regular hsafe
  · exact h.claimCommandForAnalysis hi ht rfl id h.regular (Bool.not_eq_false _ ▸ hstatus) hfits
      hsafe
  · exact h.finishWork hi ht rfl id h.regular hsafe
  · have hcopy : Commands.isProcessableCommandStatus copy = true := Bool.not_eq_false _ ▸ hstatus
    split at hsafe
    · rename_i message hparse
      have hplan : draft.plan files = .error message := by
        rw [Draft.plan, hparse]
        rfl
      have hn : ¬ draft.Fruitful files := not_fruitful_of_plan hplan
      obtain ⟨p, hp⟩ := h.safe
      have hu := h.regular.status_eq (level_of_not_fruitful hp hn) hcopy (hfits.2 hcopy).2
      exact h.failWork hi ht rfl id h.regular hn (hu.imp_right And.right) hsafe
    · exact h.claimCommandForAnalysis hi ht rfl id h.regular hcopy hfits hsafe

/-- A claim moves the status. -/
lemma Regular.claim (h : Regular draft files x) {a b : CommandStatus} (ha : x.server.status = a)
    (hp : Commands.isProcessableCommandStatus a = true) (hne : a ≠ .analyzing)
    (hb : Commands.isProcessableCommandStatus b = true) :
    Regular draft files { x with server.status := b } where
  fresh := fun _ => .inl hb
  gone := fun hl => by
    have hgone := h.gone hl
    rw [ha, hp] at hgone
    cases hgone
  rows := fun hl hf => by
    rcases h.rows hl hf with hnil | ⟨-, hst⟩
    · exact .inl hnil
    · exact absurd (ha.symm.trans hst) hne
  failures := h.failures

lemma Calm.propose (h : Calm draft files s)
    (hi : s.calls[i]? = some ⟨caller, .work .propose⟩)
    (hsafe : ∃ p, Safe draft files none p (s.propose draft i caller)) :
    Calm draft files (s.propose draft i caller) := by
  have ht : SameCalls s s := ⟨rfl, rfl, rfl⟩
  obtain ⟨-, hfits⟩ := h.fits _ (List.mem_of_getElem? hi)
  obtain ⟨hexecuted, hclaim⟩ := hfits (by decide)
  obtain ⟨p, hp⟩ := h.safe
  have hfiles : s.files = files := by
    rw [hp.holds.filesAfter]
    have hran := hp.holds.executed
    rw [hexecuted] at hran
    cases p with
    | ran key result => cases hran
    | _ => rfl
  unfold State.propose at hsafe ⊢
  split at hsafe
  · rename_i message hplan
    have hn : ¬ draft.Fruitful files := not_fruitful_of_plan (hfiles ▸ hplan)
    have hu := h.regular.status_eq (level_of_not_fruitful hp hn) (by decide) hclaim
    exact h.failWork hi ht rfl id h.regular hn (hu.imp_right And.right) hsafe
  · rename_i items hplan
    have hitems : draft.items files = items := by
      have heq : draft.plan files = .ok items := hfiles ▸ hplan
      rw [Draft.items, heq]
    dsimp only at hsafe ⊢
    generalize hreport : (if Commands.isDirect draft.command.commandType = false ∧ items = [] then
      Commands.Report.succeeded else .proposal items) = r at hsafe ⊢
    refine h.finishWork hi (t := { s with rows := enqueue s.rows (.command r) }) ⟨rfl, rfl, rfl⟩ rfl
      id ⟨h.regular.fresh, h.regular.gone, fun hl hf => ?_, h.regular.failures⟩ hsafe
    have hne : items ≠ [] := by
      rintro rfl
      have hlen := hf.nonempty
      rw [hitems] at hlen
      cases hlen
    rw [if_neg fun hc => hne hc.2] at hreport
    have hst := (h.regular.status_eq hl (by decide) hclaim).resolve_right fun hc => hc.1 hf
    right
    rw [← hreport, hitems]
    rcases h.regular.rows hl hf with hnil | ⟨hrows, -⟩
    · refine ⟨?_, hst⟩
      dsimp only
      rw [hnil]
      rfl
    · refine ⟨?_, hst⟩
      dsimp only
      rw [hrows, hitems]
      exact if_pos (by simp [Report.same, Commands.Report.key])

lemma Calm.goWork (h : Calm draft files s) {w : Work}
    (hi : s.calls[i]? = some ⟨caller, .work w⟩)
    (hsafe : ∃ p, Safe draft files none p (s.goWork draft i caller w)) :
    Calm draft files (s.goWork draft i caller w) := by
  have hfits := h.fits _ (List.mem_of_getElem? hi)
  have hcarried : ∀ g, Carried s.level (s.calls.set i ⟨caller, g⟩) :=
    fun g => h.carried.set hi fun hc => absurd hc not_carries_work
  cases w with
  | begin copy => exact h.beginWork hi hsafe
  | deliver =>
    obtain ⟨hexecuted, hst⟩ := hfits.2 (by decide)
    have hserver : s.server.updateCommandStatus .delivered =
        (.ok (), { s.server with status := .delivered }) := by
      rw [Record.updateCommandStatus, if_neg hfits.1, show s.server.status = .queued from hst]
      rfl
    rw [State.goWork, hserver] at hsafe ⊢
    exact h.goTo hi (t := { s with server.status := .delivered }) hsafe rfl
      (h.regular.claim hst (by decide) (by decide) (by decide)) id (.inl rfl)
      ⟨hfits.1, fun _ => ⟨hexecuted, rfl⟩⟩ (hcarried _)
  | analyze =>
    obtain ⟨hexecuted, hst⟩ := hfits.2 (by decide)
    have hserver : s.server.updateCommandStatus .analyzing =
        (.ok (), { s.server with status := .analyzing }) := by
      rw [Record.updateCommandStatus, if_neg hfits.1, show s.server.status = .delivered from hst]
      rfl
    rw [State.goWork, hserver] at hsafe ⊢
    exact h.claimed hi (t := { s with server.status := .analyzing }) ⟨rfl, rfl, rfl⟩ rfl id
      (h.regular.claim hst (by decide) (by decide) (by decide))
      ⟨hfits.1, fun _ => ⟨hexecuted, by simp [Claimable, Work.under]⟩⟩ hsafe
  | lookup => exact h.goTo hi hsafe rfl h.regular id (.inl rfl) hfits (hcarried _)
  | propose => exact h.propose hi hsafe

/-! ### The outbox -/

lemma awaited_carried (h : s.awaited = true) : Carried 1 s.calls := by
  intro _
  obtain ⟨c, hc, hstage⟩ := List.any_eq_true.mp h
  refine ⟨c, hc, ?_⟩
  split at hstage
  · rename_i batch hst
    exact .inl ⟨batch, hst⟩
  · rename_i hst
    exact .inr (.inl hst)
  · cases hstage

/-- A flush that goes on carries the command as before. -/
lemma carries_flush {b b' : Option (List ℕ)} {executed : Bool}
    (h : Call.Carries ⟨caller, .flush b executed⟩ ℓ) :
    Call.Carries ⟨caller, .flush b' executed⟩ ℓ := by
  rcases ℓ with _ | _ | _ | _ | ℓ
  · exact h
  · rcases h with ⟨_, hst⟩ | hst | ⟨_, hst⟩ | ⟨_, _, hst⟩ <;> cases hst
    exact .inl ⟨b', rfl⟩
  · rcases h with ⟨_, hst⟩ | hst | ⟨_, _, hst⟩ <;> cases hst
  · rcases h with ⟨_, _, _, hst⟩ | ⟨_, _, _, _, hst⟩ <;> cases hst
  · exact h

/-- What the server makes of a row. -/
lemma dispatch_cases (h : Safe draft files none p s) {row : Row} (hrow : row ∈ s.rows) :
    (s.dispatch draft row.report).2 = s.server ∨
      ((s.server.status = .analyzing ∨ s.server.status = .executing) ∧
        (s.dispatch draft row.report).2 = { s.server with status := .failed }) ∨
      (3 ≤ s.level ∧ ∃ (outcome : Executions.Outcome) (executions : List Execution),
        executions.length = s.server.executions.length ∧ (s.dispatch draft row.report).2 =
          { s.server with status := outcome.toCommandStatus, executions := executions }) ∨
      (draft.Fruitful files ∧ s.level = 0) := by
  unfold State.dispatch
  split
  · unfold Record.updateCommandStatus
    split_ifs with hk hst
    · exact .inl rfl
    · refine .inr (.inl ⟨?_, rfl⟩)
      revert hst
      cases s.server.status <;> decide
    · exact .inl rfl
  · exact .inl rfl
  · rename_i items hr
    obtain ⟨hp, rfl⟩ := h.holds.row row hrow items hr
    split_ifs with hlen
    · unfold Record.createProposal
      split_ifs with hschema hany hst
      · exact .inl rfl
      · exact .inl rfl
      · refine .inr (.inr (.inr ⟨⟨hp, hlen.1, hlen.2, Bool.not_eq_false _ ▸ hschema⟩, ?_⟩))
        have hproposals := h.holds.proposals
        rw [h.holds.level_eq]
        cases p with
        | fresh => rfl
        | _ =>
          rw [hproposals] at hany
          simp [Progress.proposals] at hany
      · exact .inl rfl
    · exact .inl rfl
  · rename_i e outcome summary hr
    unfold Record.updateExecution
    split
    · exact .inl rfl
    · rename_i execution he
      split
      · exact .inl rfl
      · refine .inr (.inr (.inl ⟨?_, outcome, _, List.length_set, rfl⟩))
        rw [h.holds.executions] at he
        rw [h.holds.level_eq]
        cases p with
        | claimed | ran => simp [Progress.level]
        | _ => cases he

/-- The proposal is the only row there is at the beginning, and the server takes it. -/
lemma dispatch_fresh (h : Calm draft files s) (hf : draft.Fruitful files) (hl : s.level = 0)
    {row : Row} (hrow : row ∈ s.rows) :
    row = ⟨.command (.proposal (draft.items files)), .pending⟩ ∧
      s.dispatch draft row.report = (.ok (), { s.server with
        status := .waitingApproval
        proposals := [⟨draft.commandKey, draft.items files, .open⟩] }) ∧
      s.server.status = .analyzing := by
  have hnone : s.server.proposals = [] := by
    rw [← List.length_eq_zero_iff]
    unfold Shared.level at hl
    omega
  rcases h.regular.rows hl hf with hnil | ⟨hrows, hst⟩
  · rw [hnil] at hrow
    cases hrow
  · rw [hrows] at hrow
    obtain rfl := List.mem_singleton.mp hrow
    refine ⟨rfl, ?_, hst⟩
    dsimp only [State.dispatch]
    rw [if_pos ⟨hf.nonempty, hf.few⟩, Record.createProposal, hf.schema, hnone, hst]
    rfl

lemma not_claimed {status : CommandStatus}
    (h : Commands.isProcessableCommandStatus status = false) :
    status ≠ .queued ∧ status ≠ .delivered := by
  constructor <;> rintro rfl <;> cases h

lemma toCommandStatus_gone (outcome : Executions.Outcome) :
    Commands.isProcessableCommandStatus outcome.toCommandStatus = false := by
  cases outcome <;> rfl

/-- The server and the rows are others, the level is the same, and no proposal is at stake. -/
lemma Regular.served (h : Regular draft files x) (hl : y.level = x.level)
    (hn : ¬ (draft.Fruitful files ∧ x.level = 0)) (hf : y.failures = x.failures)
    (hst : y.server.status = x.server.status ∨
      Commands.isProcessableCommandStatus y.server.status = false ∧
        (x.level = 0 → y.server.status = .failed)) : Regular draft files y where
  fresh := fun hy => by
    rcases hst with hst | ⟨-, hfailed⟩
    · rw [hst]
      exact h.fresh (hl.symm.trans hy)
    · exact .inr ⟨fun hf => hn ⟨hf, hl.symm.trans hy⟩, hfailed (hl.symm.trans hy)⟩
  gone := fun hy => by
    rcases hst with hst | ⟨hgone, -⟩
    · rw [hst]
      exact h.gone (hl ▸ hy)
    · exact hgone
  rows := fun hy hf => absurd ⟨hf, hl.symm.trans hy⟩ hn
  failures := by
    rw [hf]
    exact h.failures

/-- A row reaches the server. -/
lemma Calm.sent (h : Calm draft files s) {j : ℕ} {batch : List ℕ} {executed : Bool}
    {row : Row} {rows : List Row}
    (hi : s.calls[i]? = some ⟨caller, .flush (some (j :: batch)) executed⟩)
    (hj : s.rows[j]? = some row) (hok : s.delivers j = true → s.awaited = true)
    (hsafe : ∃ p, Safe draft files none p ({ s with
      server := (s.dispatch draft row.report).2, rows }.goTo i caller
        (.flush (some batch) executed))) :
    Calm draft files ({ s with
      server := (s.dispatch draft row.report).2, rows }.goTo i caller
        (.flush (some batch) executed)) := by
  have hrow : row ∈ s.rows := List.mem_of_getElem? hj
  by_cases hfresh : draft.Fruitful files ∧ s.level = 0
  · obtain ⟨hf, hl⟩ := hfresh
    obtain ⟨rfl, hdispatch, hst⟩ := dispatch_fresh h hf hl hrow
    rw [hdispatch] at hsafe ⊢
    have hlevel : s.server.proposals = [] ∧ s.server.decisions = [] ∧ s.server.executions = [] ∧
        s.executed = [] := by
      unfold Shared.level at hl
      simp only [← List.length_eq_zero_iff]
      omega
    have hawaited : s.awaited = true := by
      refine hok ?_
      rw [State.delivers, hlevel.1, hj]
      rfl
    have hone : Shared.level { s.toShared with
        server.status := .waitingApproval
        server.proposals := [⟨draft.commandKey, draft.items files, .open⟩]
        rows } = 1 := by
      rw [Shared.level, hlevel.2.1, hlevel.2.2.1, hlevel.2.2.2]
      rfl
    refine h.goTo hi hsafe rfl ⟨?_, fun _ => rfl, ?_, h.regular.failures⟩ id
      (.inr (.inr ⟨rfl, .inr ⟨?_, not_claimed rfl⟩⟩)) trivial ?_
    · exact fun hy => absurd (hone.symm.trans hy) (by decide)
    · exact fun hy => absurd (hone.symm.trans hy) (by decide)
    · rw [hst]
      decide
    · dsimp only
      rw [hone]
      exact (awaited_carried hawaited).set hi carries_flush
  · obtain ⟨p, hp⟩ := h.safe
    obtain ⟨hlevel, hk, hst, hsame⟩ : Shared.level { s.toShared with
          server := (s.dispatch draft row.report).2, rows } = s.level ∧
        (s.dispatch draft row.report).2.confirmKey = s.server.confirmKey ∧
        ((s.dispatch draft row.report).2.status = s.server.status ∨
          Commands.isProcessableCommandStatus (s.dispatch draft row.report).2.status = false ∧
            (s.level = 0 → (s.dispatch draft row.report).2.status = .failed)) ∧
        SameClaim s.server.status (s.dispatch draft row.report).2.status := by
      rcases dispatch_cases hp hrow with hd | ⟨hst, hd⟩ | ⟨hl, outcome, executions, hlen, hd⟩ | hd
      · rw [hd]
        exact ⟨rfl, rfl, .inl rfl, .inl rfl⟩
      · rw [hd]
        refine ⟨rfl, rfl, .inr ⟨rfl, fun _ => rfl⟩, .inr ⟨?_, not_claimed rfl⟩⟩
        rcases hst with hst | hst <;> rw [hst] <;> decide
      · rw [hd]
        refine ⟨?_, rfl, .inr ⟨toCommandStatus_gone outcome, fun h0 => ?_⟩, .inr ⟨?_, ?_⟩⟩
        · simp only [Shared.level, hlen]
        · rw [h0] at hl
          cases hl
        · exact not_claimed (h.regular.gone (le_trans (by decide) hl))
        · exact not_claimed (toCommandStatus_gone outcome)
      · exact absurd hd hfresh
    refine h.goTo hi hsafe rfl (h.regular.served hlevel hfresh rfl hst) ?_
      (.inr (.inr ⟨rfl, hsame⟩)) trivial ?_
    · dsimp only
      rw [hk]
      exact id
    · dsimp only
      rw [hlevel]
      exact h.carried.set hi carries_flush

/-- A row is not sent, and is sent again later. -/
lemma Calm.unsent (h : Calm draft files s) {j : ℕ} {batch : List ℕ} {executed : Bool}
    {row : Row} {state : Outbox.RowState}
    (hi : s.calls[i]? = some ⟨caller, .flush (some (j :: batch)) executed⟩)
    (hj : s.rows[j]? = some row) (hok : s.delivers j = true → state = .pending)
    (hsafe : ∃ p, Safe draft files none p ({ s with
      rows := updateState s.rows j state }.goTo i caller (.flush (some batch) executed))) :
    Calm draft files ({ s with
      rows := updateState s.rows j state }.goTo i caller (.flush (some batch) executed)) := by
  refine h.goTo hi hsafe rfl ⟨h.regular.fresh, h.regular.gone, fun hl hf => ?_,
    h.regular.failures⟩ id (.inr (.inr ⟨rfl, .inl rfl⟩)) trivial (h.carried.set hi carries_flush)
  obtain ⟨rfl, -, hst⟩ := dispatch_fresh h hf hl (List.mem_of_getElem? hj)
  have hnone : s.server.proposals = [] := by
    rw [← List.length_eq_zero_iff]
    unfold Shared.level at hl
    dsimp only at hl
    omega
  have hpending : state = .pending := by
    refine hok ?_
    rw [State.delivers, hnone, hj]
    rfl
  rcases h.regular.rows hl hf with hnil | ⟨hrows, -⟩
  · rw [hnil] at hj
    cases hj
  · refine .inr ⟨?_, hst⟩
    dsimp only
    rw [hrows] at hj ⊢
    cases j with
    | zero =>
      rw [hpending]
      rfl
    | succ j => cases hj

lemma Calm.goFlush (h : Calm draft files s) {batch : Option (List ℕ)} {executed : Bool}
    (hi : s.calls[i]? = some ⟨caller, .flush batch executed⟩)
    (hok : ∀ j batch', batch = some (j :: batch') → s.delivers j = true → s.awaited = true)
    (hsafe : ∃ p, Safe draft files none p (s.goFlush draft i caller executed batch)) :
    Calm draft files (s.goFlush draft i caller executed batch) := by
  unfold State.goFlush at hsafe ⊢
  split at hsafe
  · exact h.move hi hsafe trivial carries_flush
  · unfold State.flushed at hsafe ⊢
    cases executed with
    | true =>
      refine h.move hi hsafe trivial fun hc => ?_
      generalize s.level = ℓ at hc
      rcases ℓ with _ | _ | _ | _ | ℓ <;> simp [Call.Carries] at hc
    | false =>
      refine h.move hi hsafe trivial fun hc => ?_
      generalize s.level = ℓ at hc
      rcases ℓ with _ | _ | _ | _ | ℓ <;> simp [Call.Carries] at hc ⊢
  · split at hsafe
    · exact h.move hi hsafe trivial carries_flush
    · rename_i hj
      exact h.sent hi hj (hok _ _ rfl) hsafe

/-! ### Decisions -/

lemma Safe.level_lists (h : Safe draft files none p s) :
    s.server.proposals.length = min p.level 1 ∧ s.server.decisions.length = min (p.level - 1) 1 ∧
      s.server.executions.length = min (p.level - 2) 1 ∧ s.executed.length = p.level - 3 := by
  rw [h.holds.proposals, h.holds.decisions, h.holds.executions, h.holds.executed]
  cases p <;> exact ⟨rfl, rfl, rfl, rfl⟩

/-- Before the proposal is delivered, or after its batch has been run. -/
lemma resting_iff (h : Safe draft files none p s) :
    s.resting = true ↔ s.level = 0 ∨ s.level = 4 := by
  obtain ⟨hp, -, -, hx⟩ := h.level_lists
  rw [h.holds.level_eq, State.resting, Bool.or_eq_true, List.isEmpty_iff, ← List.length_eq_zero_iff,
    hp, Bool.not_eq_true', List.isEmpty_eq_false_iff, ← List.length_pos_iff, hx]
  cases p <;> simp [Progress.level]

lemma not_carries_of_resting (h : ℓ = 0 ∨ ℓ = 4) : ¬ c.Carries ℓ := by
  rcases h with rfl | rfl <;> exact id

lemma carried_of_resting {cs : List Call} (h : ℓ = 0 ∨ ℓ = 4) : Carried ℓ cs := by
  intro hl
  rcases h with rfl | rfl <;> simp at hl

/-- The first decision is taken, and later ones change nothing. -/
lemma createDecision_cases (h : Safe draft files none p s) (hl : 1 ≤ p.level) (key : String) :
    (p.level = 1 ∧ s.server.createDecision ⟨0, draft.items files, key⟩ = (.ok (), { s.server with
        status := .approved
        proposals := [⟨draft.commandKey, draft.items files, .approved⟩]
        decisions := [draft.decision files key] })) ∨
      2 ≤ p.level ∧ (s.server.createDecision ⟨0, draft.items files, key⟩).2 = s.server := by
  have hlevel := h.level_lists
  unfold Record.createDecision
  cases p with
  | fresh => cases hl
  | proposed =>
    left
    have hd : s.server.decisions = [] := h.holds.decisions
    have hp : s.server.proposals = [⟨draft.commandKey, draft.items files, .open⟩] :=
      h.holds.proposals
    refine ⟨rfl, ?_⟩
    rw [hd, hp]
    simp [Draft.decision]
  | decided key' | claimed key' | ran key' =>
    right
    have hp : s.server.proposals = [⟨draft.commandKey, draft.items files, .approved⟩] :=
      h.holds.proposals
    refine ⟨by simp [Progress.level], ?_⟩
    rw [hp]
    split
    · rfl
    · rfl

lemma Calm.decided (h : Calm draft files s) (hp : Safe draft files none p s) (hl : p.level = 1)
    {a : Args} {items : List AgentProposalItem} {key : String}
    (hi : s.calls[i]? = some ⟨.chat a, .createDecision 0 items⟩)
    (hsafe : ∃ p, Safe draft files none p ({ s with
        server.status := .approved
        server.proposals := [⟨draft.commandKey, draft.items files, .approved⟩]
        server.decisions := [draft.decision files key] }.goTo i (.chat a) .tryWrite)) :
    Calm draft files ({ s with
        server.status := .approved
        server.proposals := [⟨draft.commandKey, draft.items files, .approved⟩]
        server.decisions := [draft.decision files key] }.goTo i (.chat a) .tryWrite) := by
  obtain ⟨-, -, he, hx⟩ := hp.level_lists
  rw [hl] at he hx
  have htwo : Shared.level { s.toShared with
      server.status := .approved
      server.proposals := [⟨draft.commandKey, draft.items files, .approved⟩]
      server.decisions := [draft.decision files key] } = 2 := by
    rw [Shared.level, he, hx]
    rfl
  have hgone : Commands.isProcessableCommandStatus s.server.status = false := by
    refine h.regular.gone ?_
    rw [hp.holds.level_eq, hl]
  refine h.goTo hi hsafe rfl ⟨?_, fun _ => rfl, ?_, h.regular.failures⟩ id
    (.inr (.inr ⟨rfl, .inr ⟨not_claimed hgone, not_claimed rfl⟩⟩)) trivial ?_
  · exact fun hy => absurd (htwo.symm.trans hy) (by decide)
  · exact fun hy => absurd (htwo.symm.trans hy) (by decide)
  · dsimp only
    rw [htwo]
    exact .new hi (.inl ⟨a, rfl⟩)

/-- A call that does not carry the command at its level goes on. -/
lemma Calm.moveFree (h : Calm draft files s) (hi : s.calls[i]? = some ⟨caller, g₀⟩)
    (hsafe : ∃ p, Safe draft files none p (s.goTo i caller g)) (hfits : g.Fits s.toShared)
    (hn : ¬ Call.Carries ⟨caller, g₀⟩ s.level) : Calm draft files (s.goTo i caller g) :=
  h.move hi hsafe hfits fun hc => absurd hc hn

lemma Draft.Fruitful.root (h : draft.Fruitful files) :
    ∃ root, draft.binding = .ok root ∧ root.enabled = true := by
  have hplan := h.plan
  unfold Draft.plan at hplan
  cases hparse : parsePayload draft.command with
  | error message =>
    rw [hparse] at hplan
    cases hplan
  | ok payload =>
    rw [hparse] at hplan
    have hanalyze : draft.analyze files payload.1 payload.2 = .ok (draft.items files) := hplan
    unfold Draft.analyze at hanalyze
    cases hb : draft.binding with
    | error message =>
      rw [hb] at hanalyze
      cases hanalyze
    | ok root =>
      refine ⟨root, rfl, by_contra fun hn => ?_⟩
      rw [hb] at hanalyze
      change (if _ then _ else if _ then _ else _ : Except String _) = _ at hanalyze
      split_ifs at hanalyze

lemma Calm.goExecuting (h : Calm draft files s) {e : Executing}
    (hi : s.calls[i]? = some ⟨caller, .executing e⟩)
    (hok : ∀ root id d todo, e = .execute root id d todo → s.processing = false)
    (hsafe : ∃ p, Safe draft files none p (s.goExecuting draft i caller e)) :
    Calm draft files (s.goExecuting draft i caller e) := by
  obtain ⟨p, hp⟩ := h.safe
  have hsound := hp.sound _ (List.mem_of_getElem? hi)
  have hlists := hp.level_lists
  have hlevel := hp.holds.level_eq
  cases e with
  | pending =>
    refine h.move hi hsafe trivial fun hc => ?_
    rw [pendingDecisions_eq hp.holds, ← hlevel]
    generalize s.level = ℓ at hc
    rcases ℓ with _ | _ | _ | _ | ℓ <;> simp [Call.Carries] at hc ⊢
  | create todo =>
    rcases hsound with rfl | ⟨rfl, hl⟩
    · refine h.moveFree hi hsafe trivial ?_
      generalize s.level = ℓ
      rcases ℓ with _ | _ | _ | _ | ℓ <;> simp [Call.Carries]
    · cases p with
      | decided key =>
        have hcreate := createExecution_eq hp.holds
        have hthree : Shared.level { s.toShared with
            server.status := .executing, server.executions := [⟨0, none⟩] } = 3 := by
          rw [Shared.level, hlists.1, hlists.2.1, hlists.2.2.2]
          rfl
        have hgone : Commands.isProcessableCommandStatus s.server.status = false := by
          refine h.regular.gone ?_
          rw [hlevel]
          simp [Progress.level]
        rw [State.goExecuting, hcreate] at hsafe ⊢
        refine h.goTo hi (t := { s with
            server.status := .executing, server.executions := [⟨0, none⟩] }) hsafe rfl
          ⟨?_, fun _ => rfl, ?_, h.regular.failures⟩ id
          (.inr (.inr ⟨rfl, .inr ⟨not_claimed hgone, not_claimed rfl⟩⟩)) trivial ?_
        · exact fun hy => absurd (hthree.symm.trans hy) (by decide)
        · exact fun hy => absurd (hthree.symm.trans hy) (by decide)
        · rw [hthree]
          exact .new hi (.inl ⟨_, _, _, rfl⟩)
      | _ => cases hl
  | lookup id d todo =>
    obtain ⟨rfl, rfl, rfl, hl⟩ := hsound
    obtain ⟨root, hroot, henabled⟩ : ∃ root, draft.binding = .ok root ∧ root.enabled = true :=
      (hp.holds.fruitful (by rw [hl]; decide)).root
    rw [State.goExecuting, hroot] at hsafe ⊢
    dsimp only at hsafe ⊢
    rw [if_pos henabled] at hsafe ⊢
    refine h.move hi hsafe trivial fun _ => ?_
    rw [hlevel, hl]
    exact .inr ⟨_, _, _, _, rfl⟩
  | execute root id d todo =>
    obtain ⟨rfl, rfl, rfl, hl, hroot⟩ := hsound
    obtain ⟨key, hd, p', hp', hx⟩ := passes_execute (g := .executing (.execute root 0 0 []))
      hp.holds hl hroot rfl
      (executionResult_ne 0 (draft.engine.execute s.files root (draft.items files)).1)
    have hfour := hx.holds.level_eq.trans hp'
    have hgone : Commands.isProcessableCommandStatus s.server.status = false := by
      refine h.regular.gone ?_
      rw [hlevel, hl]
      decide
    rw [State.goExecuting, hd] at hsafe ⊢
    refine h.goTo hi hsafe rfl ⟨?_, fun _ => hgone, ?_, h.regular.failures⟩ id
      (.inr (.inl (hok _ _ _ _ rfl))) trivial ?_
    · exact fun hy => absurd (hfour.symm.trans hy) (by decide)
    · exact fun hy => absurd (hfour.symm.trans hy) (by decide)
    · exact carried_of_resting (.inr hfour)

/-! ### Steps -/

lemma Calm.confirm (h : Calm draft files s) {a : Args}
    (hi : s.calls[i]? = some ⟨.chat a, .confirm⟩)
    (hg : (∃ r, g = .ended r) ∨ ∃ copy, g = .tryScan (some copy))
    (hsafe : ∃ p, Safe draft files none p ({ s with
      server := (s.server.confirmCommandDraft a.confirmKey).2 }.goTo i (.chat a) g)) :
    Calm draft files ({ s with
      server := (s.server.confirmCommandDraft a.confirmKey).2 }.goTo i (.chat a) g) := by
  rw [confirmCommandDraft_eq] at hsafe ⊢
  have hregular : Regular draft files { s.toShared with
      server.confirmKey := some (s.server.confirmKey.getD a.confirmKey) } :=
    ⟨h.regular.fresh, h.regular.gone, h.regular.rows, h.regular.failures⟩
  refine h.goTo hi hsafe rfl hregular (fun _ => nofun) (.inr (.inr ⟨rfl, .inl rfl⟩)) ?_
    (h.carried.set hi fun hc => ?_)
  · rcases hg with ⟨r, rfl⟩ | ⟨copy, rfl⟩
    · trivial
    · exact nofun
  · generalize s.level = ℓ at hc
    rcases ℓ with _ | _ | _ | _ | ℓ <;> simp [Call.Carries] at hc

/-- Where the command can be processed, it is at its beginning. -/
lemma Calm.begins (h : Calm draft files s) {copy : CommandStatus}
    (hk : s.server.confirmKey ≠ none)
    (hcopy : Commands.isProcessableCommandStatus copy = true → copy = s.server.status) :
    (Stage.work (.begin copy)).Fits s.toShared := by
  refine ⟨hk, fun hp => ?_⟩
  have hst : copy = s.server.status := hcopy hp
  have hl : s.level = 0 := by
    by_contra hne
    have hgone := h.regular.gone (Nat.pos_of_ne_zero hne)
    rw [← hst, show Commands.isProcessableCommandStatus copy = true from hp] at hgone
    cases hgone
  have hexecuted : s.executed = [] := by
    rw [← List.length_eq_zero_iff]
    unfold Shared.level at hl
    omega
  refine ⟨hexecuted, ?_⟩
  rw [← hst]
  rcases isProcessable_iff.mp hp with hcopy | hcopy | hcopy <;> dsimp only [Work.under] at hcopy
  · rw [hcopy]
    exact rfl
  · rw [hcopy]
    exact rfl
  · rw [hcopy]
    exact ⟨by decide, by decide⟩

lemma Calm.takeScan (h : Calm draft files s) {copy : Option CommandStatus}
    (hi : s.calls[i]? = some ⟨caller, .tryScan copy⟩)
    (hsafe : ∃ p, Safe draft files none p ({ s with scan := some i }.goTo i caller g))
    (hfits : g.Fits s.toShared) : Calm draft files ({ s with scan := some i }.goTo i caller g) := by
  refine h.goTo hi hsafe rfl h.regular id (.inr (.inr ⟨rfl, .inl rfl⟩)) hfits
    (h.carried.set hi fun hc => ?_)
  generalize s.level = ℓ at hc
  rcases ℓ with _ | _ | _ | _ | ℓ <;> simp [Call.Carries] at hc

lemma Calm.fail (h : Calm draft files s) (hi : s.calls[i]? = some ⟨caller, g₀⟩) {message : String}
    (hg : g.free = true) (hg' : ∀ copy, g ≠ .tryScan copy)
    (hsafe : ∃ p, Safe draft files none p (s.fail i caller message g))
    (hn : ¬ Call.Carries ⟨caller, g₀⟩ s.level) : Calm draft files (s.fail i caller message g) := by
  unfold State.fail at hsafe ⊢
  split at hsafe
  · exact h.moveFree hi hsafe trivial hn
  · refine h.moveFree hi hsafe ?_ hn
    cases g with
    | tryScan copy => exact absurd rfl (hg' copy)
    | work => cases hg
    | _ => trivial

lemma Calm.goCall (h : Calm draft files s) {s' : State Θ}
    (hi : s.calls[i]? = some ⟨caller, g⟩) (hok : undisturbed s (.go i) = true)
    (hs : s.goCall draft i caller g = some s') (hsafe : ∃ p, Safe draft files none p s') :
    Calm draft files s' := by
  obtain ⟨p, hp⟩ := h.safe
  have hsound := hp.sound _ (List.mem_of_getElem? hi)
  have hfits := h.fits _ (List.mem_of_getElem? hi)
  have hlevel := hp.holds.level_eq
  unfold undisturbed at hok
  dsimp only at hok
  rw [hi] at hok
  cases g with
  | ended r => cases hs
  | confirm =>
    cases caller with
    | tick => cases hs
    | chat a =>
      rw [State.goCall] at hs
      split at hs
      · cases hs
        refine h.moveFree hi hsafe trivial ?_
        generalize s.level = ℓ
        rcases ℓ with _ | _ | _ | _ | ℓ <;> simp [Call.Carries]
      · rename_i copy server heq
        obtain rfl : (s.server.confirmCommandDraft a.confirmKey).2 = server :=
          congrArg Prod.snd heq
        split_ifs at hs <;> cases hs
        · exact h.confirm hi (.inr ⟨copy, rfl⟩) hsafe
        · exact h.confirm hi (.inl ⟨_, rfl⟩) hsafe
  | tryScan copy =>
    unfold State.goCall at hs
    dsimp only at hs
    split_ifs at hs with hbusy
    · cases hs
      refine h.fail hi rfl (by rintro _ ⟨⟩) hsafe ?_
      generalize s.level = ℓ
      rcases ℓ with _ | _ | _ | _ | ℓ <;> simp [Call.Carries]
    · split at hs <;> cases hs
      · rename_i copy
        refine h.takeScan hi hsafe (h.begins hfits fun hcopy => ?_)
        simpa [hbusy, hcopy] using hok
      · exact h.takeScan hi hsafe trivial
  | poll =>
    have hn : ¬ Call.Carries ⟨caller, .poll⟩ s.level := by
      generalize s.level = ℓ
      rcases ℓ with _ | _ | _ | _ | ℓ <;> simp [Call.Carries]
    rw [State.goCall] at hs
    split at hs <;> cases hs
    · rename_i copy hcopy
      unfold Record.pendingCommands at hcopy
      split_ifs at hcopy with hpending
      cases hcopy
      refine h.moveFree hi hsafe (h.begins ?_ fun _ => rfl) hn
      exact Option.isSome_iff_ne_none.mp hpending.1
    · exact h.moveFree hi hsafe trivial hn
  | work w =>
    cases hs
    exact h.goWork hi hsafe
  | flush batch executed =>
    cases hs
    refine h.goFlush hi ?_ hsafe
    rintro j batch' rfl hdelivers
    simpa [hdelivers] using hok
  | openProposals =>
    rw [State.goCall, Record.openProposal, hp.holds.proposals] at hs
    cases p with
    | proposed =>
      cases hs
      refine h.move hi hsafe trivial fun _ => ?_
      rw [hlevel]
      exact .inr (.inr (.inl ⟨0, rfl⟩))
    | fresh | decided | claimed | ran =>
      cases hs
      refine h.moveFree hi hsafe trivial ?_
      rw [hlevel]
      simp [Progress.level, Call.Carries]
  | getProposal q =>
    obtain ⟨rfl, hl⟩ := hsound
    rw [State.goCall, hp.holds.proposals] at hs
    cases p with
    | fresh => cases hl
    | proposed =>
      cases hs
      refine h.move hi hsafe trivial fun _ => ?_
      rw [hlevel]
      exact .inr (.inr (.inr ⟨_, _, rfl⟩))
    | decided | claimed | ran =>
      cases hs
      refine h.moveFree hi hsafe trivial ?_
      rw [hlevel]
      simp [Progress.level, Call.Carries]
  | createDecision q items =>
    obtain ⟨rfl, rfl, hl⟩ := hsound
    cases caller with
    | tick => cases hs
    | chat a =>
      rw [State.goCall] at hs
      rcases createDecision_cases hp hl a.decisionKey with ⟨hone, hcreate⟩ | ⟨htwo, hsame⟩
      · rw [hcreate] at hs
        cases hs
        exact h.decided hp hone hi hsafe
      · have hn : ¬ Call.Carries ⟨.chat a, .createDecision 0 (draft.items files)⟩ s.level := by
          rw [hlevel]
          revert htwo
          generalize p.level = ℓ
          rcases ℓ with _ | _ | _ | _ | ℓ <;> simp [Call.Carries]
        split at hs <;> cases hs
        · exact h.moveFree hi hsafe trivial hn
        · rename_i server heq
          obtain rfl : s.server = server := hsame.symm.trans (congrArg Prod.snd heq)
          exact h.moveFree hi hsafe trivial hn
  | tryWrite =>
    rw [State.goCall] at hs
    split_ifs at hs with hbusy <;> cases hs
    · refine h.fail hi rfl (by rintro _ ⟨⟩) hsafe ?_
      cases caller with
      | tick =>
        generalize s.level = ℓ
        rcases ℓ with _ | _ | _ | _ | ℓ <;> simp [Call.Carries]
      | chat a =>
        have hwrite : s.write.isNone = false := by
          rw [← Option.not_isSome, hbusy]
          rfl
        rw [hwrite, Bool.false_or, Bool.or_eq_true, resting_iff hp] at hok
        rcases hok with hrest | hexecutions
        · exact not_carries_of_resting hrest
        · obtain ⟨-, -, he, -⟩ := hp.level_lists
          rw [Bool.not_eq_true', List.isEmpty_eq_false_iff, ← List.length_pos_iff,
            he] at hexecutions
          rw [hlevel]
          revert hexecutions
          generalize p.level = ℓ
          rcases ℓ with _ | _ | _ | _ | ℓ <;> simp [Call.Carries]
    · refine h.goTo hi hsafe rfl h.regular id (.inr (.inr ⟨rfl, .inl rfl⟩)) trivial
        (h.carried.set hi fun hc => ?_)
      generalize s.level = ℓ at hc
      rcases ℓ with _ | _ | _ | _ | ℓ <;> simp [Call.Carries] at hc ⊢
  | executing e =>
    cases hs
    refine h.goExecuting hi ?_ hsafe
    rintro root id d todo rfl
    simpa using hok

lemma Calm.loseCall (h : Calm draft files s) {s' : State Θ} {f : Fault} {served : Bool}
    (hi : s.calls[i]? = some ⟨caller, g⟩) (hok : undisturbed s (.lose i f served) = true)
    (hs : s.loseCall draft i caller f served g = some s')
    (hsafe : ∃ p, Safe draft files none p s') : Calm draft files s' := by
  obtain ⟨p, hp⟩ := h.safe
  have hsound := hp.sound _ (List.mem_of_getElem? hi)
  have hlevel := hp.holds.level_eq
  unfold undisturbed at hok
  dsimp only at hok
  rw [hi] at hok
  unfold State.loseCall at hs
  split at hs
  · split at hs <;> cases hs
    cases served with
    | false =>
      refine h.moveFree hi hsafe trivial ?_
      generalize s.level = ℓ
      rcases ℓ with _ | _ | _ | _ | ℓ <;> simp [Call.Carries]
    | true => exact h.confirm hi (.inl ⟨_, rfl⟩) hsafe
  · cases hs
    refine h.moveFree hi hsafe trivial ?_
    generalize s.level = ℓ
    rcases ℓ with _ | _ | _ | _ | ℓ <;> simp [Call.Carries]
  · cases hok
  · cases hok
  · cases hok
  · rename_i j batch executed
    split at hs <;> cases hs
    rename_i row hj
    cases served with
    | false =>
      refine h.unsent hi hj (fun hd => ?_) hsafe
      have hcode : f.error.code = .transportUnavailable := by simpa [hd] using hok
      rw [State.classify, if_pos hcode]
    | true =>
      refine h.sent hi hj (fun hd => ?_) hsafe
      simpa [hd] using hok
  · cases hs
    exact h.moveFree hi hsafe trivial (not_carries_of_resting ((resting_iff hp).mp hok))
  · cases hs
    exact h.moveFree hi hsafe trivial (not_carries_of_resting ((resting_iff hp).mp hok))
  · obtain ⟨rfl, rfl, hl⟩ := hsound
    split at hs <;> cases hs
    rename_i a
    have hrest : s.level = 0 ∨ s.level = 4 := (resting_iff hp).mp hok
    have hsame : (s.server.createDecision ⟨0, draft.items files, a.decisionKey⟩).2 = s.server := by
      rcases createDecision_cases hp hl a.decisionKey with ⟨hone, -⟩ | ⟨-, hsame⟩
      · rw [hlevel, hone] at hrest
        rcases hrest with hrest | hrest <;> cases hrest
      · exact hsame
    rw [hsame] at hsafe ⊢
    have hreached : s.reached served s.server = s := by cases served <;> rfl
    rw [hreached] at hsafe ⊢
    exact h.moveFree hi hsafe trivial (not_carries_of_resting hrest)
  · cases hs
    exact h.fail hi rfl (fun _ => nofun) hsafe
      (not_carries_of_resting ((resting_iff hp).mp hok))
  · cases hs
    exfalso
    rcases hsound with hnil | ⟨-, hl⟩
    · cases hnil
    · have hrest := (resting_iff hp).mp hok
      rw [hlevel, hl] at hrest
      rcases hrest with hrest | hrest <;> cases hrest
  · cases hs
    exfalso
    obtain ⟨-, -, -, hl⟩ := hsound
    have hrest := (resting_iff hp).mp hok
    rw [hlevel, hl] at hrest
    rcases hrest with hrest | hrest <;> cases hrest
  · cases hs

lemma Calm.start (h : Calm draft files s) (hsafe : ∃ p, Safe draft files none p (s.start c))
    (hc : c.stage.Fits s.toShared) : Calm draft files (s.start c) := by
  refine ⟨hsafe, h.regular, fun c' hc' => ?_, fun hl => ?_⟩
  · rcases List.mem_append.mp hc' with hc' | hc'
    · exact h.fits c' hc'
    · rw [List.mem_singleton.mp hc']
      exact hc
  · obtain ⟨c', hc', hcarries⟩ := h.carried hl
    exact ⟨c', List.mem_append_left _ hc', hcarries⟩

lemma Calm.crash (h : Calm draft files s) (hrest : s.resting = true)
    (hsafe : ∃ p, Safe draft files none p
      { s with scan := none, write := none, calls := s.calls.map State.crashed }) :
    Calm draft files
      { s with scan := none, write := none, calls := s.calls.map State.crashed } := by
  obtain ⟨p, hp⟩ := h.safe
  refine ⟨hsafe, h.regular, fun c hc => ?_, carried_of_resting ((resting_iff hp).mp hrest)⟩
  obtain ⟨c₀, -, rfl⟩ := List.mem_map.mp hc
  obtain ⟨r, hr⟩ := crashed_ended c₀
  rw [hr]
  trivial

/-- **One step that meets the condition.** -/
theorem Calm.step {e : Event} {s' : State Θ} (h : Calm draft files s)
    (hok : undisturbed s e = true) (hs : s.step draft e = some s') : Calm draft files s' := by
  have hsafe : ∃ p, Safe draft files none p s' := by
    obtain ⟨p, hp⟩ := h.safe
    obtain ⟨p', -, hp'⟩ := hp.step hs
    exact ⟨p', hp'⟩
  cases e with
  | approve a =>
    cases hs
    refine h.start hsafe ?_
    dsimp only
    split_ifs <;> trivial
  | tick =>
    cases hs
    exact h.start hsafe trivial
  | go i =>
    obtain ⟨c, hi, hs⟩ := Option.bind_eq_some_iff.mp hs
    exact h.goCall hi hok hs hsafe
  | lose i f served =>
    obtain ⟨c, hi, hs⟩ := Option.bind_eq_some_iff.mp hs
    exact h.loseCall hi hok hs hsafe
  | crash =>
    cases hs
    exact h.crash hok hsafe

lemma calm_init : Calm draft files (State.init files) where
  safe := ⟨.fresh, safe_init⟩
  regular :=
    { fresh := fun _ => .inl rfl
      gone := fun hl => by cases hl
      rows := fun _ _ => .inl rfl
      failures := fun f hf => by cases hf }
  fits := fun c hc => by cases hc
  carried := carried_of_resting (.inl rfl)

/-- **A run whose steps meet the condition.** -/
theorem calm_run {es : List Event}
    (hok : Machine.Meets (State.step draft) (fun s e => undisturbed s e = true)
      (State.init files) es)
    (hr : Machine.run (State.step draft) (State.init files) es = some s) : Calm draft files s :=
  Machine.run_invariant Calm.step calm_init hok hr

/-! ### Calls come to their end -/

/-- How much of a call is still to come. -/
def Stage.rank : Stage → ℕ ×ₗ ℕ
  | .ended _ => toLex (0, 0)
  | .flush (some batch) true => toLex (1, batch.length)
  | .flush none true => toLex (2, 0)
  | .executing (.create todo) => toLex (3, 3 * todo.length)
  | .executing (.execute _ _ _ todo) => toLex (3, 3 * todo.length + 1)
  | .executing (.lookup _ _ todo) => toLex (3, 3 * todo.length + 2)
  | .executing .pending => toLex (4, 0)
  | .tryWrite => toLex (5, 0)
  | .createDecision _ _ => toLex (6, 0)
  | .getProposal _ => toLex (7, 0)
  | .openProposals => toLex (8, 0)
  | .flush (some batch) false => toLex (9, batch.length)
  | .flush none false => toLex (10, 0)
  | .work .propose => toLex (11, 0)
  | .work .lookup => toLex (12, 0)
  | .work .analyze => toLex (13, 0)
  | .work .deliver => toLex (14, 0)
  | .work (.begin _) => toLex (15, 0)
  | .poll => toLex (16, 0)
  | .tryScan _ => toLex (17, 0)
  | .confirm => toLex (18, 0)

lemma lt_of_major {m n a b : ℕ} (h : m < n) : (toLex (m, a) : ℕ ×ₗ ℕ) < toLex (n, b) :=
  Prod.Lex.lt_iff.mpr (.inl h)

lemma lt_of_minor {n a b : ℕ} (h : a < b) : (toLex (n, a) : ℕ ×ₗ ℕ) < toLex (n, b) :=
  Prod.Lex.lt_iff.mpr (.inr ⟨rfl, h⟩)

/-- The call has gone on, to a stage below the rank. -/
def Lower (s : State Θ) (i : ℕ) (caller : Caller) (rank : ℕ ×ₗ ℕ) (s' : State Θ) : Prop :=
  ∃ g, s'.calls = s.calls.set i ⟨caller, g⟩ ∧ g.rank < rank

section

variable {r : ℕ ×ₗ ℕ} (ht : t.calls = s.calls)

include ht

lemma lower_goTo (h : g.rank < r) : Lower s i caller r (t.goTo i caller g) :=
  ⟨g, by rw [State.goTo, ht], h⟩

lemma lower_finishWork {w : Work} (status : CommandProcessingStatus) :
    Lower s i caller (Stage.work w).rank (t.finishWork i caller status) := by
  have hlower : ∀ {m a : ℕ}, m < 11 → toLex (m, a) < (Stage.work w).rank := by
    intro m a hm
    cases w <;> exact lt_of_major (by omega)
  unfold State.finishWork
  split
  · exact lower_goTo ht (hlower (by decide))
  · split <;> exact lower_goTo ht (hlower (by decide))

lemma lower_claimed {w : Work} (hw : (Stage.work .lookup).rank < (Stage.work w).rank) :
    Lower s i caller (Stage.work w).rank (t.claimed draft i caller) := by
  unfold State.claimed
  split_ifs
  · exact lower_goTo ht hw
  · exact lower_finishWork (t := { t with
      rows := enqueue t.rows (.command .failed)
      failures := t.failures ++ [(_, t.server.status)] }) ht _

lemma lower_claimFailed {w : Work} (under : CommandStatus) (message : String) :
    Lower s i caller (Stage.work w).rank (t.claimFailed draft i caller under message) := by
  unfold State.claimFailed
  split_ifs
  · exact lower_finishWork (t := { t with
      rows := enqueue t.rows (.command .failed)
      failures := t.failures ++ [(under, t.server.status)] }) ht _
  · exact lower_finishWork ht _

end

lemma lower_claim {copy copy' : CommandStatus} :
    Lower s i caller (Stage.work (.begin copy)).rank
      (s.claimCommandForAnalysis draft i caller copy') := by
  unfold State.claimCommandForAnalysis
  split
  · exact lower_goTo rfl (lt_of_major (by decide))
  · exact lower_goTo rfl (lt_of_major (by decide))
  · exact lower_claimed rfl (lt_of_major (by decide))
  · exact lower_claimFailed rfl _ _

lemma lower_goWork {w : Work} :
    Lower s i caller (Stage.work w).rank (s.goWork draft i caller w) := by
  cases w with
  | begin copy =>
    rw [State.goWork]
    unfold State.beginWork
    split_ifs
    · exact lower_finishWork rfl _
    · exact lower_claim
    · exact lower_finishWork rfl _
    · split
      · exact lower_finishWork (t := { s with
          rows := enqueue s.rows (.command .failed)
          failures := s.failures ++ [(copy, s.server.status)] }) rfl _
      · exact lower_claim
  | deliver =>
    rw [State.goWork]
    split
    · exact lower_goTo rfl (lt_of_major (by decide))
    · exact lower_claimFailed rfl _ _
  | analyze =>
    rw [State.goWork]
    split
    · exact lower_claimed rfl (lt_of_major (by decide))
    · exact lower_claimFailed rfl _ _
  | lookup => exact lower_goTo rfl (lt_of_major (by decide))
  | propose =>
    rw [State.goWork]
    unfold State.propose
    split
    · exact lower_finishWork (t := { s with
        rows := enqueue s.rows (.command .failed)
        failures := s.failures ++ [(_, s.server.status)] }) rfl _
    · exact lower_finishWork (t := { s with rows := enqueue s.rows _ }) rfl _

lemma lower_goFlush {batch : Option (List ℕ)} {executed : Bool} :
    Lower s i caller (Stage.flush batch executed).rank
      (s.goFlush draft i caller executed batch) := by
  unfold State.goFlush
  split
  · cases executed <;> exact lower_goTo rfl (lt_of_major (by decide))
  · unfold State.flushed
    cases executed <;> exact lower_goTo rfl (lt_of_major (by decide))
  · split <;> cases executed <;> exact lower_goTo rfl (lt_of_minor (Nat.lt_succ_self _))

lemma lower_goExecuting {e : Executing} :
    Lower s i caller (Stage.executing e).rank (s.goExecuting draft i caller e) := by
  cases e with
  | pending => exact lower_goTo rfl (lt_of_major (by decide))
  | create todo =>
    cases todo with
    | nil => exact lower_goTo rfl (lt_of_major (by decide))
    | cons d todo =>
      rw [State.goExecuting]
      split
      · exact lower_goTo rfl (lt_of_minor (by rw [List.length_cons]; omega))
      · exact lower_goTo rfl (lt_of_minor (by rw [List.length_cons]; omega))
  | lookup id d todo =>
    rw [State.goExecuting]
    have hfailed : ∀ message, Lower s i caller (Stage.executing (.lookup id d todo)).rank
        (s.executionFailed i caller id message todo) := fun message =>
      lower_goTo (t := { s with rows := enqueue s.rows (.execution id .failed message) }) rfl
        (lt_of_minor (by omega))
    split
    · exact hfailed _
    · split_ifs
      · exact lower_goTo rfl (lt_of_minor (by omega))
      · exact hfailed _
  | execute root id d todo =>
    rw [State.goExecuting]
    split
    · exact lower_goTo rfl (lt_of_minor (by omega))
    · exact lower_goTo rfl (lt_of_minor (by omega))

/-- A call of the chat goes on until it ends. -/
lemma goCall_lower {a : Args} (hg : g.isEnded = false) :
    ∃ s', s.goCall draft i (.chat a) g = some s' ∧ Lower s i (.chat a) g.rank s' := by
  unfold State.goCall
  cases g with
  | ended r => cases hg
  | confirm =>
    dsimp only
    split
    · exact ⟨_, rfl, lower_goTo rfl (lt_of_major (by decide))⟩
    · split_ifs <;> exact ⟨_, rfl, lower_goTo rfl (lt_of_major (by decide))⟩
  | tryScan copy =>
    dsimp only
    split_ifs
    · exact ⟨_, rfl, lower_goTo rfl (lt_of_major (by decide))⟩
    · split
      · exact ⟨_, rfl, lower_goTo (t := { s with scan := some i }) rfl (lt_of_major (by decide))⟩
      · exact ⟨_, rfl, lower_goTo (t := { s with scan := some i }) rfl (lt_of_major (by decide))⟩
  | poll =>
    dsimp only
    split <;> exact ⟨_, rfl, lower_goTo rfl (lt_of_major (by decide))⟩
  | work w => exact ⟨_, rfl, lower_goWork⟩
  | flush batch executed => exact ⟨_, rfl, lower_goFlush⟩
  | openProposals =>
    dsimp only
    split <;> exact ⟨_, rfl, lower_goTo rfl (lt_of_major (by decide))⟩
  | getProposal q =>
    dsimp only
    split <;> exact ⟨_, rfl, lower_goTo rfl (lt_of_major (by decide))⟩
  | createDecision q items =>
    dsimp only
    split <;> exact ⟨_, rfl, lower_goTo rfl (lt_of_major (by decide))⟩
  | tryWrite =>
    dsimp only
    split_ifs
    · exact ⟨_, rfl, lower_goTo rfl (lt_of_major (by decide))⟩
    · exact ⟨_, rfl, lower_goTo (t := { s with write := some i }) rfl (lt_of_major (by decide))⟩
  | executing e => exact ⟨_, rfl, lower_goExecuting⟩

variable (draft) in
/-- Steps of the one call lead from the one state to the other. -/
def Reaches (i : ℕ) (s t : State Θ) : Prop :=
  ∃ n, Machine.run (State.step draft) s (List.replicate n (.go i)) = some t

lemma Reaches.refl : Reaches draft i s s := ⟨0, rfl⟩

lemma Reaches.head {u : State Θ} (hs : s.step draft (.go i) = some t) (h : Reaches draft i t u) :
    Reaches draft i s u := by
  obtain ⟨n, hn⟩ := h
  refine ⟨n + 1, ?_⟩
  rw [List.replicate_succ, Machine.run, hs]
  exact hn

lemma step_go {a : Args} {s' : State Θ} (hi : s.calls[i]? = some ⟨.chat a, g⟩)
    (hs : s.goCall draft i (.chat a) g = some s') : s.step draft (.go i) = some s' := by
  rw [State.step, hi]
  exact hs

def Ended (i : ℕ) (s : State Θ) : Prop := ∃ c, s.calls[i]? = some c ∧ c.stage.isEnded = true

lemma Lower.get {rank : ℕ ×ₗ ℕ} {s' : State Θ} (h : Lower s i caller rank s')
    (hi : s.calls[i]? = some c) : ∃ g, s'.calls[i]? = some ⟨caller, g⟩ ∧ g.rank < rank := by
  obtain ⟨g, hcalls, hg⟩ := h
  refine ⟨g, ?_, hg⟩
  rw [hcalls, List.getElem?_set_self (List.getElem?_eq_some_iff.mp hi).1]

/-- **Without faults a call comes to its end.** -/
theorem ends {a : Args} (hi : s.calls[i]? = some ⟨.chat a, g⟩) :
    ∃ t, Reaches draft i s t ∧ Ended i t := by
  induction hr : g.rank using WellFoundedLT.induction generalizing s g with
  | _ r ih =>
    subst hr
    cases hg : g.isEnded with
    | true => exact ⟨s, .refl, _, hi, hg⟩
    | false =>
      obtain ⟨s', hs, hlower⟩ : ∃ s', s.goCall draft i (.chat a) g = some s' ∧
          Lower s i (.chat a) g.rank s' := goCall_lower hg
      obtain ⟨g', hi', hlt⟩ := hlower.get hi
      obtain ⟨t, ht, hend⟩ := ih _ hlt hi' rfl
      exact ⟨t, .head (step_go hi hs) ht, hend⟩

/-! ### A call with nothing else going on -/

lemma eq_ended (h : g.isEnded = true) : ∃ r, g = .ended r := by
  cases g with
  | ended r => exact ⟨r, rfl⟩
  | _ => cases h

/-- Where all calls have ended, the batch has been run or nothing has been delivered. -/
lemma Calm.quiet (h : Calm draft files s) (hq : s.Quiet) : s.level = 0 ∨ s.level = 4 := by
  obtain ⟨p, hp⟩ := h.safe
  have hle : s.level ≤ 4 := by
    rw [hp.holds.level_eq]
    cases p <;> simp [Progress.level]
  by_contra hn
  have hl : s.level ∈ [1, 2, 3] := by
    simp only [List.mem_cons, List.not_mem_nil]
    omega
  obtain ⟨c, hc, hcarries⟩ := h.carried hl
  obtain ⟨r, hr⟩ := eq_ended (hq c hc)
  generalize s.level = ℓ at hcarries
  rcases ℓ with _ | _ | _ | _ | ℓ <;> simp [Call.Carries, hr] at hcarries
  obtain ⟨a, rfl⟩ := hcarries
  cases hr

variable (draft files) in
structure Solo (a : Args) (i : ℕ) (g : Stage) (s : State Θ) : Prop where
  call : s.calls[i]? = some ⟨.chat a, g⟩
  others : ∀ j c, j ≠ i → s.calls[j]? = some c → c.stage.isEnded = true
  calm : Calm draft files s

section

variable {a : Args}

lemma Solo.scan_eq_none (h : Solo draft files a i g s) (hg : g.scans = false) : s.scan = none := by
  obtain ⟨p, hp⟩ := h.calm.safe
  refine Option.eq_none_iff_forall_ne_some.mpr fun j hj => ?_
  obtain ⟨c, hc, hscans⟩ := (hp.scan j).mp hj
  by_cases hij : j = i
  · subst hij
    cases h.call.symm.trans hc
    exact absurd (hg.symm.trans hscans) (by decide)
  · obtain ⟨r, hr⟩ := eq_ended (h.others j c hij hc)
    rw [hr] at hscans
    cases hscans

lemma Solo.write_eq_none (h : Solo draft files a i g s) (hg : g.writes = false) :
    s.write = none := by
  obtain ⟨p, hp⟩ := h.calm.safe
  refine Option.eq_none_iff_forall_ne_some.mpr fun j hj => ?_
  obtain ⟨c, hc, hwrites⟩ := (hp.write j).mp hj
  by_cases hij : j = i
  · subst hij
    cases h.call.symm.trans hc
    exact absurd (hg.symm.trans hwrites) (by decide)
  · obtain ⟨r, hr⟩ := eq_ended (h.others j c hij hc)
    rw [hr] at hwrites
    cases hwrites

lemma Solo.step {s' : State Θ} {g' : Stage} (h : Solo draft files a i g s)
    (hok : undisturbed s (.go i) = true) (hs : s.goCall draft i (.chat a) g = some s')
    (hcalls : s'.calls = s.calls.set i ⟨.chat a, g'⟩) : Solo draft files a i g' s' := by
  refine ⟨?_, fun j c hj hc => ?_, h.calm.step hok (step_go h.call hs)⟩
  · rw [hcalls, List.getElem?_set_self (List.getElem?_eq_some_iff.mp h.call).1]
  · rw [hcalls, List.getElem?_set_ne (Ne.symm hj)] at hc
    exact h.others j c hj hc

/-- Once the proposal is delivered, nothing can go wrong any more. -/
lemma Solo.undisturbed (h : Solo draft files a i g s) (hl : 1 ≤ s.level)
    (hg : g.rank < toLex (17, 0)) : undisturbed s (.go i) = true := by
  obtain ⟨p, hp⟩ := h.calm.safe
  have hproposals : s.server.proposals.isEmpty = false := by
    rw [List.isEmpty_eq_false_iff, ← List.length_pos_iff, hp.level_lists.1, ← hp.holds.level_eq]
    omega
  unfold ChatApproval.undisturbed
  dsimp only
  rw [h.call]
  cases g with
  | tryScan copy => exact absurd hg (lt_irrefl _)
  | tryWrite =>
    dsimp only
    rw [h.write_eq_none rfl]
    rfl
  | flush batch executed =>
    rcases batch with _ | _ | ⟨j, batch⟩
    · rfl
    · rfl
    · dsimp only
      rw [State.delivers, hproposals]
      rfl
  | executing e =>
    cases e with
    | execute root id d todo =>
      dsimp only
      rw [Bool.not_eq_true', State.processing, List.any_eq_false]
      intro c hc
      obtain ⟨j, hj⟩ := List.mem_iff_getElem?.mp hc
      by_cases hij : j = i
      · subst hij
        cases h.call.symm.trans hj
        exact Bool.false_ne_true
      · obtain ⟨r, hr⟩ := eq_ended (h.others j c hij hj)
        rw [hr]
        exact Bool.false_ne_true
    | _ => rfl
  | _ => rfl

/-- **A call that has delivered the proposal brings it to the run of its batch.** -/
lemma Solo.carries (h : Solo draft files a i g s) (hl : 1 ≤ s.level)
    (hg : g.rank < toLex (17, 0)) : ∃ t, Reaches draft i s t ∧ Ended i t ∧ t.level = 4 := by
  induction hr : g.rank using WellFoundedLT.induction generalizing s g with
  | _ r ih =>
    subst hr
    obtain ⟨p, hp⟩ := h.calm.safe
    cases hend : g.isEnded with
    | true =>
      refine ⟨s, .refl, ⟨_, h.call, hend⟩, ?_⟩
      have hquiet : s.Quiet := by
        intro c hc
        obtain ⟨j, hj⟩ := List.mem_iff_getElem?.mp hc
        by_cases hij : j = i
        · subst hij
          cases h.call.symm.trans hj
          exact hend
        · exact h.others j c hij hj
      rcases h.calm.quiet hquiet with hzero | hfour
      · rw [hzero] at hl
        cases hl
      · exact hfour
    | false =>
      obtain ⟨s', hs, g', hcalls, hlt⟩ : ∃ s', s.goCall draft i (.chat a) g = some s' ∧
          Lower s i (.chat a) g.rank s' := goCall_lower hend
      have h' := h.step (h.undisturbed hl hg) hs hcalls
      have hl' : 1 ≤ s'.level := by
        obtain ⟨p', hle, hp'⟩ := hp.step (step_go h.call hs)
        rw [hp'.holds.level_eq]
        rw [hp.holds.level_eq] at hl
        exact hl.trans hle
      obtain ⟨t, ht, hend, hfour⟩ := ih _ hlt h' hl' (hlt.trans hg) rfl
      exact ⟨t, .head (step_go h.call hs) ht, hend, hfour⟩

variable (draft files) in
/-- The call goes on to where the proposal waits in the outbox to be sent. -/
def Submits (a : Args) (i : ℕ) (s : State Θ) : Prop :=
  ∃ t, Reaches draft i s t ∧ Solo draft files a i (.flush none false) t ∧ t.level = 0 ∧ t.rows ≠ []

/-- It goes on to the next stage of the processing. -/
lemma Solo.submits {w : Work} {s' : State Θ} {g' : Stage}
    (h : Solo draft files a i (.work w) s) (hs : s.goWork draft i (.chat a) w = s')
    (hcalls : s'.calls = s.calls.set i ⟨.chat a, g'⟩)
    (hnext : Solo draft files a i g' s' → Submits draft files a i s') :
    Submits draft files a i s := by
  have hok : ChatApproval.undisturbed s (.go i) = true := by
    unfold ChatApproval.undisturbed
    dsimp only
    rw [h.call]
  have hgo : s.goCall draft i (.chat a) (.work w) = some s' := congrArg some hs
  obtain ⟨t, ht, hwaits⟩ := hnext (h.step hok hgo hcalls)
  exact ⟨t, .head (step_go h.call hgo) ht, hwaits⟩

variable (hf : draft.Fruitful files)

include hf

lemma Solo.submits_propose (h : Solo draft files a i (.work .propose) s) (hl : s.level = 0) :
    Submits draft files a i s := by
  obtain ⟨p, hp⟩ := h.calm.safe
  have hfiles : s.files = files := by
    rw [hp.holds.level_eq] at hl
    rw [hp.holds.filesAfter]
    cases p with
    | fresh => rfl
    | _ => cases hl
  have hne : draft.items s.files ≠ [] := hfiles ▸ List.length_pos_iff.mp hf.nonempty
  have hs : s.goWork draft i (.chat a) .propose =
      { s with rows := enqueue s.rows (.command (.proposal (draft.items files))) }.goTo i (.chat a)
        (.flush none false) := by
    have hplan := hf.plan
    rw [Draft.plan, ← hfiles] at hplan
    rw [← hfiles, State.goWork, State.propose, hplan]
    dsimp only
    rw [if_neg fun hc => hne hc.2, if_neg hne]
    rfl
  refine h.submits hs rfl fun h' => ⟨_, .refl, h', hl, ?_⟩
  dsimp only [State.goTo]
  unfold enqueue
  split_ifs with hany
  · intro hnil
    rw [hnil] at hany
    cases hany
  · exact List.append_ne_nil_of_right_ne_nil _ (List.cons_ne_nil _ _)

lemma Solo.submits_lookup (h : Solo draft files a i (.work .lookup) s) (hl : s.level = 0) :
    Submits draft files a i s :=
  h.submits rfl rfl fun h' => h'.submits_propose hf hl

lemma Solo.submits_analyze (h : Solo draft files a i (.work .analyze) s) (hl : s.level = 0) :
    Submits draft files a i s := by
  have hfits := h.calm.fits _ (List.mem_of_getElem? h.call)
  obtain ⟨-, hst⟩ := hfits.2 (by decide)
  have hs : s.goWork draft i (.chat a) .analyze =
      { s with server.status := .analyzing }.goTo i (.chat a) (.work .lookup) := by
    rw [State.goWork, Record.updateCommandStatus, if_neg hfits.1,
      show s.server.status = .delivered from hst]
    exact if_pos hf.handler
  exact h.submits hs rfl fun h' => h'.submits_lookup hf hl

lemma Solo.submits_deliver (h : Solo draft files a i (.work .deliver) s) (hl : s.level = 0) :
    Submits draft files a i s := by
  have hfits := h.calm.fits _ (List.mem_of_getElem? h.call)
  obtain ⟨-, hst⟩ := hfits.2 (by decide)
  have hs : s.goWork draft i (.chat a) .deliver =
      { s with server.status := .delivered }.goTo i (.chat a) (.work .analyze) := by
    rw [State.goWork, Record.updateCommandStatus, if_neg hfits.1,
      show s.server.status = .queued from hst]
    rfl
  exact h.submits hs rfl fun h' => h'.submits_analyze hf hl

lemma Solo.submits_begin {copy : CommandStatus}
    (h : Solo draft files a i (.work (.begin copy)) s) (hl : s.level = 0)
    (hcopy : Commands.isProcessableCommandStatus copy = true) : Submits draft files a i s := by
  have hs : s.goWork draft i (.chat a) (.begin copy) =
      s.claimCommandForAnalysis draft i (.chat a) copy := by
    rw [State.goWork, State.beginWork, hcopy, hf.handler, hf.supported]
    have hplan := hf.plan
    unfold Draft.plan at hplan
    cases hparse : parsePayload draft.command with
    | error message =>
      rw [hparse] at hplan
      cases hplan
    | ok payload => rfl
  rcases isProcessable_iff.mp hcopy with rfl | rfl | rfl
  · exact h.submits hs rfl fun h' => h'.submits_deliver hf hl
  · exact h.submits hs rfl fun h' => h'.submits_analyze hf hl
  · have hclaimed : s.claimCommandForAnalysis draft i (.chat a) .analyzing =
        s.goTo i (.chat a) (.work .lookup) := if_pos hf.handler
    exact h.submits (hs.trans hclaimed) rfl fun h' => h'.submits_lookup hf hl

/-- The row of the proposal is sent. -/
lemma Solo.carries_sent (h : Solo draft files a i (.flush (some [0]) false) s) (hl : s.level = 0)
    (hrows : s.rows = [⟨.command (.proposal (draft.items files)), .pending⟩]) :
    ∃ t, Reaches draft i s t ∧ Ended i t ∧ t.level = 4 := by
  have hok : ChatApproval.undisturbed s (.go i) = true := by
    have hawaited : s.awaited = true :=
      List.any_eq_true.mpr ⟨_, List.mem_of_getElem? h.call, rfl⟩
    unfold ChatApproval.undisturbed
    dsimp only
    rw [h.call]
    dsimp only
    rw [hawaited, Bool.or_true]
  have hrow : s.rows[0]? = some ⟨.command (.proposal (draft.items files)), .pending⟩ := by
    rw [hrows]
    rfl
  obtain ⟨-, hdispatch, -⟩ := dispatch_fresh h.calm hf hl (List.mem_of_getElem? hrow)
  have hgo : s.goCall draft i (.chat a) (.flush (some [0]) false) = some ({ s with
      server.status := .waitingApproval
      server.proposals := [⟨draft.commandKey, draft.items files, .open⟩]
      rows := updateState s.rows 0 .sent }.goTo i (.chat a) (.flush (some []) false)) := by
    rw [State.goCall, State.goFlush, hrow]
    dsimp only
    rw [hdispatch]
    rfl
  have h' := h.step hok hgo rfl
  obtain ⟨t, ht, hend⟩ := h'.carries (Nat.le_add_right_of_le (Nat.le_add_right_of_le
    (Nat.le_add_right 1 _))) (lt_of_major (by decide))
  exact ⟨t, .head (step_go h.call hgo) ht, hend⟩

/-- **The proposal that waits is delivered, and its batch is run.** -/
lemma Submits.carries (h : Submits draft files a i s) :
    ∃ t, Reaches draft i s t ∧ Ended i t ∧ t.level = 4 := by
  obtain ⟨u, ⟨n, hn⟩, hsolo, hl, hne⟩ := h
  have hrows := ((hsolo.calm.regular.rows hl hf).resolve_left hne).1
  have hok : ChatApproval.undisturbed u (.go i) = true := by
    unfold ChatApproval.undisturbed
    dsimp only
    rw [hsolo.call]
  have hgo : u.goCall draft i (.chat a) (.flush none false) =
      some (u.goTo i (.chat a) (.flush (some [0]) false)) := by
    rw [State.goCall, State.goFlush, hrows]
    rfl
  obtain ⟨t, ⟨m, hm⟩, hend⟩ := (hsolo.step hok hgo rfl).carries_sent hf hl hrows
  refine ⟨t, ⟨n + (m + 1), ?_⟩, hend⟩
  rw [List.replicate_add, Machine.run_append, hn]
  rw [Option.bind_some, List.replicate_succ, Machine.run, step_go hsolo.call hgo]
  exact hm

end

/-! ### The call is repeated -/

/-- Nothing has been delivered in either, or the batches of both have been run. -/
lemma sameWork {k : String} (hs : Safe draft files (some k) p s)
    (ht : Safe draft files (some k) p' t) (hl : p.level = p'.level)
    (hquiet : p.level = 0 ∨ p.level = 4) : s.SameWork t := by
  have hkey : ∀ {p : Progress} {s : State Θ}, Safe draft files (some k) p s → ∀ key,
      p.key = some key → ∀ k', k = "confirm-" ++ k' → key = "decision-" ++ k' := by
    intro p s h key hp k' hk'
    obtain ⟨k'', rfl, hconfirmed⟩ := h.holds.key key hp
    rw [h.confirmed k rfl, hk'] at hconfirmed
    rw [(String.append_right_inj _).mp (Option.some.inj hconfirmed)]
  rcases hquiet with hzero | hfour
  · obtain rfl : p = .fresh := by cases p <;> first | rfl | cases hzero
    obtain rfl : p' = .fresh := by cases p' <;> first | rfl | cases hl
    exact ⟨hs.holds.decisions.trans ht.holds.decisions.symm,
      congrArg _ (hs.holds.executions.trans ht.holds.executions.symm),
      hs.holds.executed.trans ht.holds.executed.symm,
      hs.holds.filesAfter.trans ht.holds.filesAfter.symm⟩
  · obtain ⟨key, result, rfl⟩ : ∃ key result, p = .ran key result := by
      cases p <;> first | exact ⟨_, _, rfl⟩ | cases hfour
    obtain ⟨key', result', rfl⟩ : ∃ key result, p' = .ran key result := by
      cases p' <;> first | exact ⟨_, _, rfl⟩ | cases hl
    obtain ⟨k', -, hk'⟩ := hs.holds.key key rfl
    rw [hs.confirmed k rfl] at hk'
    have heq : key = key' := (hkey hs key rfl k' (Option.some.inj hk')).trans
      (hkey ht key' rfl k' (Option.some.inj hk')).symm
    subst heq
    refine ⟨hs.holds.decisions.trans ht.holds.decisions.symm, ?_,
      hs.holds.executed.trans ht.holds.executed.symm,
      hs.holds.filesAfter.trans ht.holds.filesAfter.symm⟩
    rw [hs.holds.executions, ht.holds.executions]
    rfl

/-- The call has confirmed the draft. -/
lemma Calm.confirmed {a : Args} (h : Calm draft files s) (hq : s.Quiet) (ha : s.Accepts draft a) :
    ∃ u, Machine.run (State.step draft) s [.approve a, .go s.calls.length] = some u ∧
      Solo draft files a s.calls.length (.tryScan (some s.server.status)) u ∧
      u.server = { s.server with confirmKey := some a.confirmKey } ∧ u.level = s.level := by
  have happrove : s.step draft (.approve a) = some (s.start ⟨.chat a, .confirm⟩) := by
    rw [State.step, if_pos ha.valid]
  have hsolo : Solo draft files a s.calls.length .confirm (s.start ⟨.chat a, .confirm⟩) := by
    refine ⟨?_, fun j c hj hc => ?_, h.step rfl happrove⟩
    · exact List.getElem?_concat_length
    · rw [State.start] at hc
      rcases lt_or_gt_of_ne hj with hlt | hgt
      · rw [List.getElem?_append_left hlt] at hc
        exact hq c (List.mem_of_getElem? hc)
      · rw [List.getElem?_eq_none (by rw [List.length_append]; exact hgt)] at hc
        cases hc
  have hserver : s.server.confirmCommandDraft a.confirmKey =
      (.ok s.server.status, { s.server with confirmKey := some a.confirmKey }) := by
    unfold Record.confirmCommandDraft
    rcases ha.key with hk | hk
    · rw [hk]
    · rw [hk]
      dsimp only
      rw [if_pos rfl, ← hk]
  have hgo : (s.start ⟨.chat a, .confirm⟩).goCall draft s.calls.length (.chat a) .confirm =
      some ({ s.start ⟨.chat a, .confirm⟩ with
        server.confirmKey := some a.confirmKey }.goTo s.calls.length (.chat a)
          (.tryScan (some s.server.status))) := by
    rw [State.goCall, show (s.start ⟨.chat a, .confirm⟩).server.confirmCommandDraft a.confirmKey =
      (.ok s.server.status, { s.server with confirmKey := some a.confirmKey }) from hserver]
    exact if_pos ha.room
  refine ⟨_, ?_, hsolo.step ?_ hgo rfl, rfl, rfl⟩
  · rw [Machine.run, happrove, Option.bind_some, Machine.run, step_go hsolo.call hgo]
    rfl
  · unfold ChatApproval.undisturbed
    dsimp only
    rw [hsolo.call]

/-- With a fresh copy of the command the call brings it to the run of its batch, if a proposal comes
of it. -/
lemma Solo.finishes {a : Args} {u : State Θ}
    (h : Solo draft files a i (.tryScan (some u.server.status)) u) :
    ∃ t, Reaches draft i u t ∧ Ended i t ∧ (draft.Fruitful files → u.level = 0 → t.level = 4) := by
  by_cases hf : draft.Fruitful files ∧ u.level = 0
  · obtain ⟨hf, hl⟩ := hf
    have hfree : u.scan = none := h.scan_eq_none rfl
    have hgo : u.goCall draft i (.chat a) (.tryScan (some u.server.status)) =
        some ({ u with scan := some i }.goTo i (.chat a) (.work (.begin u.server.status))) := by
      rw [State.goCall, hfree]
      rfl
    have hok : ChatApproval.undisturbed u (.go i) = true := by
      unfold ChatApproval.undisturbed
      dsimp only
      rw [h.call]
      simp
    have hcopy : Commands.isProcessableCommandStatus u.server.status = true :=
      (h.calm.regular.fresh hl).resolve_right fun hn => hn.1 hf
    obtain ⟨t, ht, hend, hfour⟩ := ((h.step hok hgo rfl).submits_begin hf hl hcopy).carries hf
    exact ⟨t, .head (step_go h.call hgo) ht, hend, fun _ _ => hfour⟩
  · obtain ⟨t, ht, hend⟩ : ∃ t, Reaches draft i u t ∧ Ended i t := ends h.call
    exact ⟨t, ht, hend, fun hf' hl => absurd ⟨hf', hl⟩ hf⟩

/-- **The call that is made with nothing else going on ends where the batch of a proposal has been
run, if one comes of the command.** -/
theorem Calm.repeated {a : Args} (h : Calm draft files s) (hq : s.Quiet)
    (ha : s.Accepts draft a) : ∃ t p, s.Alone draft t a ∧
      Safe draft files (some a.confirmKey) p t ∧
      ((draft.Fruitful files ∧ p.level = 4) ∨ ¬ draft.Fruitful files ∧ p.level = 0) := by
  obtain ⟨u, hu, hsolo, hserver, hlevel⟩ := h.confirmed hq ha
  have hstatus : s.server.status = u.server.status := by rw [hserver]
  rw [hstatus] at hsolo
  obtain ⟨t, ⟨n, hn⟩, hend, hfruitful⟩ := hsolo.finishes
  obtain ⟨p₀, hp₀⟩ := hsolo.calm.safe
  have hsafe : Safe draft files (some a.confirmKey) p₀ u :=
    { hp₀ with confirmed := fun k hk => by rw [hserver, ← hk] }
  obtain ⟨p, hle, hp⟩ := safe_run hsafe hn
  refine ⟨t, p, ⟨n + 1, ?_, hend⟩, hp, ?_⟩
  · rw [List.replicate_succ, show (Event.approve a :: .go s.calls.length ::
      List.replicate n (.go s.calls.length)) = [Event.approve a, .go s.calls.length] ++
        List.replicate n (.go s.calls.length) from rfl, Machine.run_append, hu]
    exact hn
  · by_cases hf : draft.Fruitful files
    · refine .inl ⟨hf, ?_⟩
      rcases h.quiet hq with hzero | hfour
      · rw [← hp.holds.level_eq]
        exact hfruitful hf (hlevel.trans hzero)
      · have hle' : 4 ≤ p.level := by
          rw [← hfour, ← hlevel, hp₀.holds.level_eq]
          exact hle
        refine le_antisymm ?_ hle'
        cases p <;> simp [Progress.level]
    · refine .inr ⟨hf, ?_⟩
      by_contra hne
      exact hf (hp.holds.fruitful (Nat.pos_of_ne_zero hne))

/-- **Approvals that are raced and repeated**, as far as no copy of the command has become stale and
no request has been lost where it cannot be made again. -/
theorem approval_settles {es : List Event}
    (hok : Machine.Meets (State.step draft) (fun s e => undisturbed s e = true)
      (State.init files) es)
    (hr : Machine.run (State.step draft) (State.init files) es = some s) :
    s.Settles draft files := by
  have hcalm := calm_run hok hr
  obtain ⟨hproposals, hexecuted⟩ := once hr
  refine ⟨hproposals, hexecuted, hcalm.regular.failures, fun hq a ha => ?_⟩
  have hinit : (State.init files).Accepts draft a := ⟨ha.valid, ha.room, .inl rfl⟩
  obtain ⟨t, p, ht, hp, hpl⟩ := hcalm.repeated hq ha
  have hcalm₀ : Calm draft files (State.init files) := calm_init
  obtain ⟨ref, p', href, hp', hpl'⟩ := hcalm₀.repeated (fun c hc => by cases hc) hinit
  refine ⟨t, ref, ht, href, ?_⟩
  rcases hpl with ⟨hf, hl⟩ | ⟨hf, hl⟩
  · have hl' := (hpl'.resolve_right fun hn => hn.1 hf).2
    exact sameWork hp hp' (hl.trans hl'.symm) (.inr hl)
  · have hl' := (hpl'.resolve_left fun hn => hf hn.1).2
    exact sameWork hp hp' (hl.trans hl'.symm) (.inl hl)

/-! ### Runs with one file to move -/

def boundRoot : ManagedRoot :=
  { ManagedRoot.new "root-1" "/work" "work" 1 with
    roomId := some "1", roomBindingStatus := .active }

/-- The number of batches that have been run stands for the files. -/
def movingEngine : Transport.FileEngine ℕ where
  proposalReport n _ _ :=
    if n = 0 then .ok ⟨"/work", [.plain .move "a.txt" "docs/a.txt" 1 none]⟩
    else .error "no file to move"
  execute n _ _ := (.ok (.succeeded, "done"), n + 1)
  validateLocalTransferSource _ _ _ := .error ⟨.sourceNotFound, "no file"⟩
  ensureSourceUnchanged _ _ := .error "no file"
  hashSourcePayload _ _ := .error "no file"
  openSource _ _ := .error "no file"

def moving : Draft ℕ where
  command := ⟨7, "ANALYZE", 1, .queued, ⟨true, .error "", .error ""⟩⟩
  binding := .ok boundRoot
  engine := movingEngine

def approval : Args := ⟨1, "approve-1"⟩

/-- The answer to the confirmation is lost, and the next call finds the permit taken by a tick. -/
def faulty : List Event :=
  [.approve approval, .lose 0 .unreachable true, .tick, .go 1, .go 1, .approve approval, .go 2,
    .go 2, .go 1, .go 1, .go 1, .go 1, .go 1]

theorem approval_settles_faulty :
    ∃ s, Machine.run (State.step moving) (State.init 0) faulty = some s ∧ s.Settles moving 0 := by
  have hrun : (Machine.run (State.step moving) (State.init 0) faulty).isSome = true := by
    decide +kernel
  have hmeets : Machine.Meets (State.step moving) (fun s e => undisturbed s e = true)
      (State.init 0) faulty := by
    decide +kernel
  obtain ⟨s, hs⟩ := Option.isSome_iff_exists.mp hrun
  exact ⟨s, hs, approval_settles hmeets hs⟩

/-- The call has its copy of the command before the tick claims it, and its permit after that. -/
def raced : List Event :=
  [.approve approval, .go 0, .tick, .go 1, .go 1, .go 1, .go 1, .go 1, .go 1, .go 1, .go 0, .go 0,
    .go 0]

/-- The command is reported as failed because the tick has claimed it. -/
theorem not_approval_settles :
    ∃ s, Machine.run (State.step moving) (State.init 0) raced = some s ∧
      ¬ s.Settles moving 0 := by
  have hrun : (Machine.run (State.step moving) (State.init 0) raced).map (fun s => s.failures) =
      some [(.queued, .analyzing)] := by
    decide +kernel
  obtain ⟨s, hs, hfailures⟩ := Option.map_eq_some_iff.mp hrun
  refine ⟨s, hs, fun h => ?_⟩
  have hf := h.failures (.queued, .analyzing) (by rw [hfailures]; exact List.mem_cons_self)
  rcases hf with hf | hf <;> cases hf

end MouseKeeper.Desktop.ChatApproval
