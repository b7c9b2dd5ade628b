import MouseKeeper.Server.Orderly

/-!
Where the calls on commands, proposals, decisions and executions stand, statement by
statement, and what their answers say about the tables.
-/

namespace MouseKeeper.Server

open MouseKeeper.ReadCommitted

/-- What an answer says about the tables: a claim names a stored execution under its key, and
a stored result belongs to an execution that is no longer running. -/
def Known (d : Db) : Request → Response → Prop
  | .createExecution q, .execution e =>
    ∃ e' ∈ d.executions, e'.id = e.id ∧ e'.idempotencyKey = q.key
  | .createExecution _, _ => False
  | .updateExecution q, _ => ∃ e ∈ d.executions, e.id = q.executionId ∧ e.status ≠ .executing
  | _, _ => True

/-- The effect is the one of the request, with its answer. -/
def Effect.For : Effect → Request → Response → Prop
  | .report _ _, .updateCommand _, _ => True
  | .propose _, .createProposal _, _ => True
  | .settle _ _, .createDecision _, _ => True
  | .claim q _, .createExecution q', a => q' = q ∧ a = .execution (Executions.newExecution q)
  | .finish q _ _, .updateExecution q', _ => q' = q
  | _, _, _ => False

section Place

variable (calm : Prop)

/-- Where a call stands: what it has changed so far, and what is left of it. -/
inductive Place (d : Db) (held : List Lock) : Request → (Db → Db) → Program → Prop
  | refused {q : Request} (e : Code) : Place d held q id (.answer (.error e))
  | replayed {q : Request} {a : Response} (h : Known d q a) :
    Place d held q id (.answer (.ok a))
  | committing {q : Request} {a : Response} (f : Effect) (h : f.Enabled calm d held)
    (hf : f.For q a) : Place d held q f.apply (.answer (.ok a))
  | update (q : Commands.Update) :
    Place d held (.updateCommand q) id ((Commands.update q).map .command)
  | lockCommand (q : Commands.Update) :
    Place d held (.updateCommand q) id ((Commands.lockCommand q).map .command)
  | setStatus {q : Commands.Update} {c : Command} (h : Reporting calm d held q c) :
    Place d held (.updateCommand q) id ((Commands.setStatus q c).map .command)
  | propose (q : Proposals.Create) :
    Place d held (.createProposal q) id ((Proposals.create q).map .proposal)
  | checkReplay (q : Proposals.Create) (c : Command) :
    Place d held (.createProposal q) id ((Proposals.checkReplay q c).map .proposal)
  | insertProposal (q : Proposals.Create) :
    Place d held (.createProposal q) id ((Proposals.tryInsert q).map .proposal)
  | proposalConflict (q : Proposals.Create) :
    Place d held (.createProposal q) id ((Proposals.afterConflict q).map .proposal)
  | writeItems {q : Proposals.Create} (h : Proposing d held q) :
    Place d held (.createProposal q) (Proposals.insertProposal q)
      ((Proposals.writeItems q).map .proposal)
  | setWaiting {q : Proposals.Create} (h : Proposing d held q) :
    Place d held (.createProposal q)
      (fun d' => Proposals.insertItems q (Proposals.insertProposal q d'))
      ((Proposals.setCommand q).map .proposal)
  | decide (q : Decisions.Create) :
    Place d held (.createDecision q) id ((Decisions.create q).map .decision)
  | lockProposal (q : Decisions.Create) :
    Place d held (.createDecision q) id ((Decisions.lockProposal q).map .decision)
  | concurrentReplay (q : Decisions.Create) :
    Place d held (.createDecision q) id ((Decisions.concurrentReplay q).map .decision)
  | checkItems {q : Decisions.Create} {p : Proposal} (h : Settling d held q p) :
    Place d held (.createDecision q) id ((Decisions.checkItems q p).map .decision)
  | insertDecision {q : Decisions.Create} {p : Proposal} (h : Settling d held q p) :
    Place d held (.createDecision q) id ((Decisions.tryInsert q p).map .decision)
  | decisionConflict (q : Decisions.Create) :
    Place d held (.createDecision q) id ((Decisions.afterConflict q).map .decision)
  | setProposal {q : Decisions.Create} {p : Proposal} (h : Deciding d held q p) :
    Place d held (.createDecision q) (Decisions.insertDecision q)
      ((Decisions.setProposal q p).map .decision)
  | setDecided {q : Decisions.Create} {p : Proposal} (h : Deciding d held q p) :
    Place d held (.createDecision q) (fun d' => Db.setProposalStatus q.proposalId
        (Decisions.finalProposalStatus q.decisionType) (Decisions.insertDecision q d'))
      ((Decisions.setCommand q p).map .decision)
  | claim (q : Executions.Create) :
    Place d held (.createExecution q) id ((Executions.create q).map .execution)
  | insertExecution {q : Executions.Create} {s : Executions.Source}
    (h : Claimable d held q s.proposal) :
    Place d held (.createExecution q) id ((Executions.tryInsert q s).map .execution)
  | executionConflict (q : Executions.Create) :
    Place d held (.createExecution q) id ((Executions.afterConflict q).map .execution)
  | setExecuting {q : Executions.Create} {s : Executions.Source}
    (h : Claiming d held q s.proposal) :
    Place d held (.createExecution q) (Executions.insertExecution q)
      ((Executions.setCommand q s).map .execution)
  | finish (q : Executions.Update) :
    Place d held (.updateExecution q) id ((Executions.update q).map .execution)
  | lockTarget (q : Executions.Update) :
    Place d held (.updateExecution q) id ((Executions.lockTarget q).map .execution)
  | writeResult {q : Executions.Update} {e : Execution} {p : Proposal}
    (h : Finishing d held q e p) :
    Place d held (.updateExecution q) id ((Executions.writeResult q e p).map .execution)
  | setFinished {q : Executions.Update} {e : Execution} {p : Proposal}
    (h : Finishing d held q e p) :
    Place d held (.updateExecution q) (Executions.storeResult q)
      ((Executions.finishCommand q e p).map .execution)

end Place

/-- A decision is claimed under one key. -/
def ClaimedOnce (d : Db) (q : Request) (t : Program) : Prop :=
  ∀ q', q = .createExecution q' → ∀ s, t = (Executions.tryInsert q' s).map .execution →
    ∀ e ∈ d.executions, e.decisionId = q'.decisionId → e.idempotencyKey = q'.key

/-- A proposal finds its command still `ANALYZING` when it sets the status, and no report
fails a command that is `EXECUTING`. -/
def StatusKept (d : Db) (q : Request) (t : Program) : Prop :=
  match q with
  | .createProposal q => t = (Proposals.setCommand q).map .proposal →
      StatusIs d q.commandId .analyzing
  | .updateCommand q => t = (Commands.lockCommand q).map .command → q.status = .failed →
      ∀ x ∈ d.commands, x.id = q.commandId → x.status ≠ .executing
  | _ => True

section Stable

variable {calm : Prop} {d : Db} {held held' : List Lock}

lemma Place.commit {q : Request} {f : Db → Db} {a : Response}
    (h : Place calm d held q f (.answer (.ok a))) :
    (f = id ∧ Known d q a) ∨ ∃ g : Effect, g.Enabled calm d held ∧ g.For q a ∧ f = g.apply := by
  generalize ht : Txn.answer (.ok a) = t at h
  cases h with
  | refused => cases ht
  | replayed h =>
    cases ht
    exact .inl ⟨rfl, h⟩
  | committing g h hf =>
    cases ht
    exact .inr ⟨g, h, hf, rfl⟩
  | _ => cases ht

/-- An execution stays, with its keys, and with its result once it has one. -/
structure Kept (e e' : Execution) : Prop where
  id : e'.id = e.id
  decisionId : e'.decisionId = e.decisionId
  key : e'.idempotencyKey = e.idempotencyKey
  result : e.status ≠ .executing → e' = e

lemma Kept.refl (e : Execution) : Kept e e := ⟨rfl, rfl, rfl, fun _ => rfl⟩

lemma Kept.trans {a b c : Execution} (h : Kept a b) (h' : Kept b c) : Kept a c where
  id := h'.id.trans h.id
  decisionId := h'.decisionId.trans h.decisionId
  key := h'.key.trans h.key
  result hs := by
    have hb := h.result hs
    rw [h'.result (by rw [hb]; exact hs), hb]

/-- Every execution is kept. -/
def AllKept (d d' : Db) : Prop := ∀ e ∈ d.executions, ∃ e' ∈ d'.executions, Kept e e'

lemma AllKept.refl (d : Db) : AllKept d d := fun e he => ⟨e, he, .refl e⟩

lemma AllKept.trans {a b c : Db} (h : AllKept a b) (h' : AllKept b c) : AllKept a c := by
  intro e he
  obtain ⟨e', he', hk⟩ := h e he
  obtain ⟨e'', he'', hk'⟩ := h' e' he'
  exact ⟨e'', he'', hk.trans hk'⟩

/-- **The first result stays**: an effect changes no execution that has one. -/
lemma Orderly.allKept {f : Effect} (h : Orderly calm d) (hf : f.Enabled calm d held) :
    AllKept d (f.apply d) := by
  intro e he
  cases f with
  | none | report | propose | settle => exact ⟨e, he, .refl e⟩
  | claim => exact ⟨e, List.mem_append_left _ he, .refl e⟩
  | finish q e₀ p =>
    refine ⟨_, List.mem_map.mpr ⟨e, he, rfl⟩, ?_⟩
    split
    · rename_i hid
      refine ⟨rfl, rfl, rfl, fun hs => absurd hf.1.status ?_⟩
      rwa [List.inj_on_of_nodup_map h.executionIds hf.1.mem he (hf.1.id.trans hid.symm)]
    · exact .refl e

lemma Known.later {d' : Db} {q : Request} {a : Response} (h : Known d q a)
    (hd : AllKept d d') : Known d' q a := by
  cases q with
  | createExecution q =>
    cases a with
    | execution e =>
      obtain ⟨e', he', hid, hkey⟩ := h
      obtain ⟨e'', he'', hk⟩ := hd e' he'
      exact ⟨e'', he'', hk.id.trans hid, hk.key.trans hkey⟩
    | _ => exact h
  | updateExecution q =>
    obtain ⟨e, he, hid, hs⟩ := h
    obtain ⟨e', he', hk⟩ := hd e he
    exact ⟨e', he', hk.id.trans hid, by rwa [hk.result hs]⟩
  | _ => trivial

/-- What the answer of a committing call says holds once it has committed. -/
lemma Effect.For.known {f : Effect} {q : Request} {a : Response} (h : f.For q a)
    (hf : f.Enabled calm d held) : Known (f.apply d) q a := by
  cases f with
  | none => cases q <;> exact h.elim
  | report | propose | settle => cases q <;> trivial
  | claim q' p =>
    cases q with
    | createExecution q =>
      obtain ⟨rfl, rfl⟩ := h
      exact ⟨_, List.mem_append_right _ List.mem_cons_self, rfl, rfl⟩
    | _ => exact h.elim
  | finish q' e p =>
    cases q with
    | updateExecution q =>
      obtain rfl : q = q' := h
      refine ⟨_, List.mem_map.mpr ⟨e, hf.1.mem, if_pos hf.1.id⟩, hf.1.id, ?_⟩
      cases hs : q.status <;> simp [Executions.withResult, hs, Executions.Outcome.toStatus]
    | _ => exact h.elim

/-- **The place of a call survives the commits of the others.** -/
lemma Place.stable {q : Request} {f : Db → Db} {t : Program} {g : Effect}
    (ho : Orderly calm d) (he : g.Enabled calm d held) (hd : List.Disjoint held held')
    (h : Place calm d held' q f t) : Place calm (g.apply d) held' q f t := by
  cases h with
  | refused e => exact .refused e
  | replayed h => exact .replayed (h.later (ho.allKept he))
  | committing f h hf => exact .committing f (he.stable hd h) hf
  | update q => exact .update q
  | lockCommand q => exact .lockCommand q
  | setStatus h =>
    exact .setStatus ⟨h.lock, h.status.stable he hd h.lock, h.allowed, h.running⟩
  | propose q => exact .propose q
  | checkReplay q c => exact .checkReplay q c
  | insertProposal q => exact .insertProposal q
  | proposalConflict q => exact .proposalConflict q
  | writeItems h => exact .writeItems (h.stable he hd)
  | setWaiting h => exact .setWaiting (h.stable he hd)
  | decide q => exact .decide q
  | lockProposal q => exact .lockProposal q
  | concurrentReplay q => exact .concurrentReplay q
  | checkItems h => exact .checkItems (h.stable he hd)
  | insertDecision h => exact .insertDecision (h.stable he hd)
  | decisionConflict q => exact .decisionConflict q
  | setProposal h => exact .setProposal (h.stable he hd)
  | setDecided h => exact .setDecided (h.stable he hd)
  | claim q => exact .claim q
  | insertExecution h => exact .insertExecution (h.stable he hd)
  | executionConflict q => exact .executionConflict q
  | setExecuting h => exact .setExecuting (h.stable he hd)
  | finish q => exact .finish q
  | lockTarget q => exact .lockTarget q
  | writeResult h => exact .writeResult (h.stable he hd)
  | setFinished h => exact .setFinished (h.stable he hd)

end Stable

lemma Place.start {calm : Prop} {d : Db} {held : List Lock} (q : Request) :
    Place calm d held q id (body q) := by
  cases q with
  | updateCommand q => exact .update q
  | createProposal q => exact .propose q
  | createDecision q => exact .decide q
  | createExecution q => exact .claim q
  | updateExecution q => exact .finish q

/-! ### One statement -/

lemma mem_of_find {α : Type} {l : List α} {q : α → Bool} {a : α} (h : l.find? q = some a) :
    a ∈ l ∧ q a = true :=
  ⟨List.mem_of_find?_eq_some h, List.find?_some h⟩

lemma Place.answer {calm : Prop} {d : Db} {held : List Lock} {q : Request}
    {a : Except Code Response} (h : ∀ r, a = .ok r → Known d q r) :
    Place calm d held q id (.answer a) := by
  cases a with
  | error e => exact .refused e
  | ok r => exact .replayed (h r rfl)

lemma Executions.SameResult.status_ne {e : Execution} {q : Executions.Update}
    (h : Executions.SameResult e q) : e.status ≠ .executing := by
  rw [h.1]
  cases q.status <;> simp [Executions.Outcome.toStatus]

/-- With unique identifiers, a row tells the status of its command. -/
lemma statusIs_of_mem {d : Db} (hn : (d.commands.map (·.id)).Nodup) {c : Command}
    (hc : c ∈ d.commands) : StatusIs d c.id c.status := fun x hx hid => by
  rw [List.inj_on_of_nodup_map hn hx hc hid]

lemma executions_source {d : Db} {q : Executions.Create} {s : Executions.Source}
    (h : Executions.source d q = some s) : s.proposal ∈ d.proposals ∧
      s.proposal.id = q.proposalId ∧ s.decision ∈ d.decisions ∧
      s.decision.id = q.decisionId ∧ s.decision.proposalId = s.proposal.id := by
  simp only [Executions.source, Option.bind_eq_bind, Option.bind_eq_some_iff,
    Option.pure_def, Option.some.injEq] at h
  obtain ⟨p, hp, r, hr, c, -, v, -, rfl⟩ := h
  obtain ⟨hp, hpid⟩ := mem_of_find hp
  obtain ⟨hr, hrid⟩ := mem_of_find hr
  simp only [Bool.and_eq_true, decide_eq_true_eq] at hpid hrid
  exact ⟨hp, hpid, hr, hrid.1.1, hrid.1.2⟩

lemma executions_target {d : Db} {q : Executions.Update} {e : Execution} {p : Proposal}
    (h : Executions.target d q = some (e, p)) : e ∈ d.executions ∧
      e.id = q.executionId ∧ p ∈ d.proposals ∧ p.id = e.proposalId := by
  simp only [Executions.target, Option.bind_eq_bind, Option.bind_eq_some_iff,
    Option.pure_def, Option.some.injEq, Prod.mk.injEq] at h
  obtain ⟨e', he, p', hp, v, -, rfl, rfl⟩ := h
  obtain ⟨he, heid⟩ := mem_of_find he
  obtain ⟨hp, hpid⟩ := mem_of_find hp
  simp only [Bool.and_eq_true, decide_eq_true_eq] at heid hpid
  exact ⟨he, heid.1, hp, hpid⟩

lemma Settling.held_mono {d : Db} {held held' : List Lock} {q : Decisions.Create}
    {p : Proposal} (h : Settling d held q p) (hs : held ⊆ held') : Settling d held' q p :=
  ⟨hs h.lock, h.mem, h.id, h.isOpen⟩

lemma Deciding.held_mono {d : Db} {held held' : List Lock} {q : Decisions.Create}
    {p : Proposal} (h : Deciding d held q p) (hs : held ⊆ held') : Deciding d held' q p :=
  ⟨h.toSettling.held_mono hs, hs h.rowLock, h.fresh⟩

lemma Proposing.held_mono {d : Db} {held held' : List Lock} {q : Proposals.Create}
    (h : Proposing d held q) (hs : held ⊆ held') : Proposing d held' q :=
  ⟨hs h.lock, hs h.commandLock, h.fresh⟩

lemma Claimable.held_mono {d : Db} {held held' : List Lock} {q : Executions.Create}
    {p : Proposal} (h : Claimable d held q p) (hs : held ⊆ held') : Claimable d held' q p :=
  ⟨hs h.lock, hs h.decisionLock, h.mem, h.id, h.approved, h.decision⟩

lemma Claiming.held_mono {d : Db} {held held' : List Lock} {q : Executions.Create}
    {p : Proposal} (h : Claiming d held q p) (hs : held ⊆ held') : Claiming d held' q p :=
  ⟨h.toClaimable.held_mono hs, hs h.rowLock, hs h.keyLock, h.fresh⟩

lemma Finishing.held_mono {d : Db} {held held' : List Lock} {q : Executions.Update}
    {e : Execution} {p : Proposal} (h : Finishing d held q e p) (hs : held ⊆ held') :
    Finishing d held' q e p :=
  ⟨hs h.lock, hs h.proposalLock, h.mem, h.id, h.status, h.proposal, h.proposalId⟩
/-- **A statement leads from one place to the next.** -/
lemma Place.advance {calm : Prop} {d : Db} {held : List Lock} {q : Request} {f : Db → Db}
    {t : Program} {locks change next} (hd : Orderly calm d) (h : Place calm d held q f t)
    (hone : ClaimedOnce d q t) (hkept : calm → StatusKept d q t)
    (hr : t = .stmt locks change next) :
    Place calm d (locks (f d) ++ held) q (fun d' => change (f d) (f d')) (next (f d)) := by
  have hs : ∀ l, held ⊆ l ++ held := fun l => List.subset_append_right l held
  cases h with
  | refused e => cases hr
  | replayed h => cases hr
  | committing f h hf => cases hr
  | update q =>
    cases hr
    simp only [id_eq]
    split
    · exact .lockCommand q
    · exact .answer fun _ _ => trivial
  | lockCommand q =>
    cases hr
    simp only [id_eq]
    cases hc : Commands.current d q with
    | none => exact .answer fun _ _ => trivial
    | some c =>
      obtain ⟨hm, hcid⟩ := mem_of_find hc
      simp only [Bool.and_eq_true, decide_eq_true_eq] at hcid
      simp only
      split
      · refine .setStatus ⟨by simp [Commands.currentLocks, hc], statusIs_of_mem hd.commandIds hm,
          ‹_›, fun hc' hf => hkept hc' rfl hf c hm hcid.1.1⟩
      · exact .answer fun _ _ => trivial
  | @setStatus q c h =>
    cases hr
    exact .committing (.report q c) ⟨hs _ h.lock, h.status, h.allowed, h.running⟩ trivial
  | propose q =>
    cases hr
    simp only [id_eq]
    split
    · exact .answer fun _ _ => trivial
    · exact .checkReplay q _
  | checkReplay q c =>
    cases hr
    simp only [id_eq]
    split
    · rw [Proposals.replay]
      split <;> exact .answer fun _ _ => trivial
    · split
      · exact .insertProposal q
      · exact .answer fun _ _ => trivial
  | insertProposal q =>
    cases hr
    simp only [id_eq]
    by_cases hc : Proposals.Conflicts d q
    · simp only [hc, if_true]
      exact .proposalConflict q
    · simp only [hc, if_false]
      have hl : Proposals.insertLocks q d = [.proposal q.newId,
        .proposalCommand q.commandId, .proposalKey q.idempotencyKey] := if_neg hc
      refine .writeItems ⟨by simp [hl], by simp [hl], fun p hp => ⟨fun hid => ?_, fun hid => ?_⟩⟩
      · exact hc ⟨p, hp, .inl hid⟩
      · exact hc ⟨p, hp, .inr (.inl hid)⟩
  | proposalConflict q =>
    cases hr
    simp only [id_eq]
    split
    · exact .answer fun _ _ => trivial
    · rw [Proposals.replay]
      split <;> exact .answer fun _ _ => trivial
  | writeItems h =>
    cases hr
    exact .setWaiting (h.held_mono (hs _))
  | @setWaiting q h =>
    cases hr
    exact .committing (.propose q) ⟨h.held_mono (hs _), by simp, fun hc => hkept hc rfl⟩ trivial
  | decide q =>
    cases hr
    simp only [id_eq]
    split
    · exact .answer fun _ _ => trivial
    · exact .lockProposal q
  | lockProposal q =>
    cases hr
    simp only [id_eq]
    cases ho : Decisions.owned d q with
    | none => exact .answer fun _ _ => trivial
    | some p =>
      obtain ⟨hm, hid, -⟩ := Decisions.owned_some ho
      simp only
      split
      · exact .concurrentReplay q
      · rename_i hc
        simp only [Decisions.Closed, not_or, not_not] at hc
        exact .checkItems ⟨by simp [Decisions.ownedLocks, ho], hm, hid, hc.1⟩
  | concurrentReplay q =>
    cases hr
    simp only [id_eq]
    split <;> exact .answer fun _ _ => trivial
  | checkItems h =>
    cases hr
    simp only [id_eq]
    split
    · exact .answer fun _ _ => trivial
    · exact .insertDecision h
  | @insertDecision q p h =>
    cases hr
    simp only [id_eq]
    by_cases hc : Decisions.Conflicts d q
    · simp only [hc, if_true]
      exact .decisionConflict q
    · simp only [hc, if_false]
      have hl : Decisions.insertLocks q d = [.decision q.newId,
        .decisionKey q.userId q.key, .decisionProposal q.proposalId] := if_neg hc
      exact .setProposal ⟨h.held_mono (hs _), by simp [hl],
        fun r hr hid => hc ⟨r, hr, .inl hid⟩⟩
  | decisionConflict q =>
    cases hr
    simp only [id_eq]
    split <;> exact .answer fun _ _ => trivial
  | setProposal h =>
    cases hr
    exact .setDecided (h.held_mono (hs _))
  | @setDecided q p h =>
    cases hr
    exact .committing (.settle q p) ⟨h.held_mono (hs _), by simp⟩ trivial
  | claim q =>
    cases hr
    simp only [id_eq]
    cases hsrc : Executions.source d q with
    | none => exact .refused _
    | some s =>
      obtain ⟨hp, hpid, hdec, hrid, hrp⟩ := executions_source hsrc
      simp only
      split
      · refine .insertExecution ⟨by simp [Executions.sourceLocks, hsrc],
          by simp [Executions.sourceLocks, hsrc, hrid], hp, hpid, ‹_›, s.decision, hdec, hrid, hrp⟩
      · exact .refused _
  | @insertExecution q s h =>
    cases hr
    simp only [id_eq]
    by_cases hc : Executions.Conflicts d q
    · simp only [hc, if_true]
      exact .executionConflict q
    · simp only [hc, if_false]
      have hl : Executions.insertLocks q d = [.execution q.newId, .executionKey q.key] :=
        if_neg hc
      refine .setExecuting ⟨h.held_mono (hs _), by simp [hl], by simp [hl],
        fun e he => ⟨fun hid => ?_, fun hdec => ?_, fun hkey => ?_⟩⟩
      · exact hc ⟨e, he, .inl hid⟩
      · exact hc ⟨e, he, .inr (hone q rfl s rfl e he hdec)⟩
      · exact hc ⟨e, he, .inr hkey⟩
  | executionConflict q =>
    cases hr
    simp only [id_eq]
    split
    · exact .refused _
    · rename_i e he
      obtain ⟨he, hkey⟩ := mem_of_find he
      exact .replayed ⟨e, he, rfl, by simpa using hkey⟩
  | @setExecuting q s h =>
    cases hr
    exact .committing (.claim q s.proposal) ⟨h.held_mono (hs _), by simp⟩ ⟨rfl, rfl⟩
  | finish q =>
    cases hr
    simp only [id_eq]
    split
    · rename_i e he
      obtain ⟨he, -⟩ := mem_of_find he
      split
      · rename_i hsame
        exact .replayed ⟨e, he, hsame.1, hsame.2.status_ne⟩
      · exact .refused _
    · exact .lockTarget q
  | lockTarget q =>
    cases hr
    simp only [id_eq]
    cases ht : Executions.target d q with
    | none => exact .refused _
    | some ep =>
      obtain ⟨e, p⟩ := ep
      obtain ⟨he, heid, hp, hpid⟩ := executions_target ht
      simp only
      split
      · split
        · rename_i hsame
          exact .replayed ⟨e, he, heid, hsame.status_ne⟩
        · exact .refused _
      · split
        · exact .refused _
        · rename_i hst
          simp only [not_not] at hst
          exact .writeResult ⟨by simp [Executions.targetLocks, ht],
            by simp [Executions.targetLocks, ht], he, heid, hst, hp, hpid⟩
  | @writeResult q e p h =>
    cases hr
    simp only [id_eq]
    by_cases hc : Executions.KeyTaken d q
    · simp only [hc, if_true]
      exact .refused _
    · simp only [hc, if_false]
      exact .setFinished (h.held_mono (hs _))
  | @setFinished q e p h =>
    cases hr
    exact .committing (.finish q e p) ⟨h.held_mono (hs _), by simp⟩ rfl

end MouseKeeper.Server
