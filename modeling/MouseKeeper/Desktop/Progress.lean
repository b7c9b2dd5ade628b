import MouseKeeper.Desktop.Commands

/-!
When the desktop and the server agree on the progress of a command.

A report is accepted only of a command that is `ANALYZING`, and the status `SUCCEEDED` is
accepted of none. What has been refused is never queued again, as its key stays taken.
-/

namespace MouseKeeper.Desktop.Commands

open MouseKeeper.Server MouseKeeper.FileEngine

variable {userId deviceId : ℕ}

/-! ### The command in the tables -/

/-- The command is in the tables with the status, for an active device in an active room. -/
structure At (userId deviceId : ℕ) (c : AgentCommand) (st : CommandStatus) (d : Db) : Prop where
  ids : (d.commands.map (·.id)).Nodup
  mem : (⟨c.commandId, c.roomId, deviceId, st⟩ : Command) ∈ d.commands
  room : d.rooms.any fun r => decide (r.id = c.roomId) && r.active
  device : Server.Commands.activeDevice d userId deviceId

lemma find_unique {d : Db} (hn : (d.commands.map (·.id)).Nodup) {x : Command}
    (hx : x ∈ d.commands) {p : Command → Bool} (hp : p x = true)
    (hid : ∀ y, p y = true → y.id = x.id) : d.commands.find? p = some x := by
  cases hf : d.commands.find? p with
  | none => exact absurd hp (by simpa using List.find?_eq_none.mp hf x hx)
  | some y =>
    rw [List.inj_on_of_nodup_map hn (List.mem_of_find?_eq_some hf) hx
      (hid y (List.find?_some hf))]

section At

variable {c : AgentCommand} {st : CommandStatus} {d : Db}

lemma At.status (h : At userId deviceId c st d) {x : Command} (hx : x ∈ d.commands)
    (hid : x.id = c.commandId) : x.status = st := by
  rw [List.inj_on_of_nodup_map h.ids hx h.mem hid]

lemma At.set (h : At userId deviceId c st d) (st' : CommandStatus) :
    At userId deviceId c st' (Db.setCommandStatus c.commandId st' d) where
  ids := by
    rw [Db.setCommandStatus, List.map_map]
    have hm : d.commands.map ((·.id) ∘ fun x : Command =>
        if x.id = c.commandId then { x with status := st' } else x) =
        d.commands.map (·.id) := by
      refine List.map_congr_left fun x _ => ?_
      simp only [Function.comp_apply]
      split <;> rfl
    exact hm ▸ h.ids
  mem := List.mem_map.mpr ⟨_, h.mem, if_pos rfl⟩
  room := h.room
  device := h.device

/-- A status report served with no other request. -/
lemma At.update (h : At userId deviceId c st d) (s : Server.Commands.Reported) :
    (Server.Commands.update ⟨userId, deviceId, c.commandId, s⟩).alone id d =
        (if canTransition st s.toStatus then Db.setCommandStatus c.commandId s.toStatus d
          else d) ∧
      (Server.Commands.update ⟨userId, deviceId, c.commandId, s⟩).aloneAnswer id d =
        if canTransition st s.toStatus then [⟨c.commandId, c.roomId, deviceId, s.toStatus⟩]
          else [] := by
  have hf : Server.Commands.current d ⟨userId, deviceId, c.commandId, s⟩ =
      some ⟨c.commandId, c.roomId, deviceId, st⟩ := by
    refine find_unique h.ids h.mem (by simpa using h.room) fun y hy => ?_
    simp only [Bool.and_eq_true, decide_eq_true_eq] at hy
    exact hy.1.1
  simp only [Server.Commands.update, ReadCommitted.Txn.read, ReadCommitted.Txn.alone,
    ReadCommitted.Txn.aloneAnswer, id_eq, h.device, if_true, Server.Commands.lockCommand,
    ReadCommitted.Txn.lock, hf]
  split <;> exact ⟨rfl, rfl⟩

lemma At.updateStatus (h : At userId deviceId c st d) {s : String}
    {r : Server.Commands.Reported} (hs : reportedStatus s = some r) (reply : Reply) :
    updateCommandStatus userId deviceId c.commandId s reply d =
      (if reply ≠ .lost ∧ canTransition st r.toStatus then
          Db.setCommandStatus c.commandId r.toStatus d else d,
        decide (reply = .answered ∧ canTransition st r.toStatus)) := by
  obtain ⟨h₁, h₂⟩ := h.update r
  simp only [updateCommandStatus, hs]
  cases reply <;> simp only [h₁, h₂] <;> split <;> simp_all

end At

/-! ### The claim -/

/-- The claim brings a command of the status to `ANALYZING`. -/
def Network.Reaches (n : Network) : CommandStatus → Prop
  | .queued => n.delivered = .answered ∧ n.analyzing ≠ .lost
  | .delivered => n.analyzing ≠ .lost
  | .analyzing => True
  | _ => False

/-- The desktop learns that it has. -/
def Network.Answers (n : Network) : CommandStatus → Prop
  | .queued => n.delivered = .answered ∧ n.analyzing = .answered
  | .delivered => n.analyzing = .answered
  | .analyzing => True
  | _ => False

/-- Where a claim leaves the command. -/
structure Claims (userId deviceId : ℕ) (c : AgentCommand) (n : Network) (d : Db) (r : Db × Bool) :
    Prop where
  reached : n.Reaches c.status → At userId deviceId c .analyzing r.1
  left : ¬ n.Reaches c.status →
    At userId deviceId c .queued r.1 ∨ At userId deviceId c .delivered r.1
  proposals : r.1.proposals = d.proposals
  answered : r.2 = true ↔ n.Answers c.status

/-- The second report of a claim, of a command that is `DELIVERED`. -/
lemma At.analyze {c : AgentCommand} {d : Db} (h : At userId deviceId c .delivered d)
    (reply : Reply) :
    (reply ≠ .lost → At userId deviceId c .analyzing
        (updateCommandStatus userId deviceId c.commandId "ANALYZING" reply d).1) ∧
      (reply = .lost → At userId deviceId c .delivered
        (updateCommandStatus userId deviceId c.commandId "ANALYZING" reply d).1) ∧
      (updateCommandStatus userId deviceId c.commandId "ANALYZING" reply d).1.proposals =
        d.proposals ∧
      ((updateCommandStatus userId deviceId c.commandId "ANALYZING" reply d).2 = true ↔
        reply = .answered) := by
  have hs : reportedStatus "ANALYZING" = some .analyzing := rfl
  have hc : canTransition .delivered Server.Commands.Reported.analyzing.toStatus = true := by
    decide
  rw [h.updateStatus hs reply]
  cases reply with
  | lost => exact ⟨fun hn => absurd rfl hn, fun _ => h, rfl, by simp⟩
  | unanswered =>
    simp only [ne_eq, reduceCtorEq, not_false_eq_true, hc, and_self, if_true]
    exact ⟨fun _ => h.set .analyzing, fun hl => hl.elim, rfl, by simp⟩
  | answered =>
    simp only [ne_eq, reduceCtorEq, not_false_eq_true, hc, and_self, if_true]
    exact ⟨fun _ => h.set .analyzing, fun hl => hl.elim, rfl, by simp⟩

lemma claims {c : AgentCommand} {d : Db} (n : Network) (h : At userId deviceId c c.status d)
    (hp : isProcessableCommandStatus c.status) :
    Claims userId deviceId c n d (claimCommandForAnalysis userId deviceId c n d) := by
  unfold claimCommandForAnalysis
  cases hst : c.status with
  | queued =>
    rw [hst] at h
    have hs : reportedStatus "DELIVERED" = some .delivered := rfl
    have hc : canTransition .queued Server.Commands.Reported.delivered.toStatus = true := by
      decide
    have hfirst := h.updateStatus hs n.delivered
    cases hd : n.delivered with
    | lost =>
      simp only [hd, ne_eq, not_true_eq_false, false_and, if_false, reduceCtorEq,
        decide_false] at hfirst
      simp only [hfirst]
      exact ⟨fun hr => by simp [Network.Reaches, hst, hd] at hr, fun _ => .inl h, rfl,
        by simp [Network.Answers, hst, hd]⟩
    | unanswered =>
      simp only [hd, ne_eq, reduceCtorEq, not_false_eq_true, hc, and_self, if_true, false_and,
        decide_false] at hfirst
      simp only [hfirst]
      exact ⟨fun hr => by simp [Network.Reaches, hst, hd] at hr,
        fun _ => .inr (h.set .delivered), rfl, by simp [Network.Answers, hst, hd]⟩
    | answered =>
      simp only [hd, ne_eq, reduceCtorEq, not_false_eq_true, hc, and_self, if_true,
        decide_true] at hfirst
      simp only [hfirst]
      obtain ⟨h₁, h₂, h₃, h₄⟩ := (h.set .delivered).analyze n.analyzing
      refine ⟨fun hr => h₁ ?_, fun hr => .inr (h₂ ?_), h₃, ?_⟩
      · simp only [Network.Reaches, hst] at hr
        exact hr.2
      · simpa [Network.Reaches, hst, hd] using hr
      · simp only [Network.Answers, hst, hd, true_and]
        exact h₄
  | delivered =>
    rw [hst] at h
    obtain ⟨h₁, h₂, h₃, h₄⟩ := h.analyze n.analyzing
    refine ⟨fun hr => h₁ ?_, fun hr => .inr (h₂ ?_), h₃, ?_⟩
    · simpa [Network.Reaches, hst] using hr
    · simpa [Network.Reaches, hst] using hr
    · simpa [Network.Answers, hst] using h₄
  | analyzing =>
    rw [hst] at h
    exact ⟨fun _ => h, fun hr => absurd (by rw [hst]; trivial) hr, rfl,
      by simp [Network.Answers, hst]⟩
  | _ => simp [hst, isProcessableCommandStatus] at hp

/-! ### Deliveries -/

variable {newId : ℕ} {newItemIds : List ℕ}

/-- A report that the client and the server accept of a command that is `ANALYZING`. -/
def Acceptable (userId deviceId : ℕ) (c : AgentCommand) (newId : ℕ) (newItemIds : List ℕ)
    (d : Db) : Report → Prop
  | .failed => True
  | .succeeded => False
  | .proposal items => createProposalSchema items = true ∧
      match Proposals.findByKey d (toString c.commandId) with
      | some p => Proposals.SameTarget p (submission userId deviceId c newId newItemIds)
      | none => ¬ Proposals.Conflicts d (submission userId deviceId c newId newItemIds)

/-- A report that moves such a command on. -/
def Moves (userId deviceId : ℕ) (c : AgentCommand) (newId : ℕ) (newItemIds : List ℕ)
    (d : Db) : Report → Prop
  | .failed => True
  | .succeeded => False
  | .proposal items => createProposalSchema items = true ∧
      ¬ Proposals.Conflicts d (submission userId deviceId c newId newItemIds)

lemma findByKey_conflicts {d : Db} {q : Proposals.Create} {p : Server.Proposal}
    (h : Proposals.findByKey d q.idempotencyKey = some p) : Proposals.Conflicts d q :=
  ⟨p, List.mem_of_find?_eq_some h, .inr (.inr (by simpa using List.find?_some h))⟩

section Dispatch

variable {c : AgentCommand} {st : CommandStatus} {d : Db}

lemma At.source (h : At userId deviceId c st d) :
    Proposals.source d (submission userId deviceId c newId newItemIds) =
      some ⟨c.commandId, c.roomId, deviceId, st⟩ := by
  refine find_unique h.ids h.mem ?_ fun y hy => ?_
  · have hd := h.device
    simp only [Server.Commands.activeDevice, List.any_eq_true, Bool.and_eq_true,
      decide_eq_true_eq] at hd
    obtain ⟨v, hv, hu⟩ := hd
    simp only [submission, decide_true, Bool.true_and, List.any_eq_true, Bool.and_eq_true,
      decide_eq_true_eq]
    exact ⟨v, hv, hu.1.1, decide_eq_true hu.1.2⟩
  · simp only [Bool.and_eq_true, submission] at hy
    exact of_decide_eq_true hy.1.1.1

lemma At.insert (h : At userId deviceId c st d) (q : Proposals.Create) :
    At userId deviceId c st (Proposals.insertItems q (Proposals.insertProposal q d)) :=
  ⟨h.ids, h.mem, h.room, h.device⟩

/-- A submission served with no other request, of a command that is not `ANALYZING`. -/
lemma At.create_other (h : At userId deviceId c st d) (hst : st ≠ .analyzing) :
    (Proposals.create (submission userId deviceId c newId newItemIds)).alone id d = d := by
  simp only [Proposals.create, ReadCommitted.Txn.read, ReadCommitted.Txn.alone, id_eq,
    h.source, Proposals.checkReplay, hst, if_false, Proposals.replay]
  split
  · split <;> rfl
  · rfl

/-- A submission served with no other request, of a command that is `ANALYZING`. -/
lemma At.create (h : At userId deviceId c .analyzing d) {q : Proposals.Create}
    (hq : q = submission userId deviceId c newId newItemIds) :
    (Proposals.create q).alone id d = (if Proposals.Conflicts d q then d else
        Db.setCommandStatus c.commandId .waitingApproval
          (Proposals.insertItems q (Proposals.insertProposal q d))) ∧
      ((Proposals.create q).aloneAnswer id d).length =
        match Proposals.findByKey d q.idempotencyKey with
        | some p => if Proposals.SameTarget p q then 1 else 0
        | none => if Proposals.Conflicts d q then 0 else 1 := by
  have hs : Proposals.source d q = some ⟨c.commandId, c.roomId, deviceId, .analyzing⟩ :=
    hq ▸ h.source
  cases hf : Proposals.findByKey d q.idempotencyKey with
  | some p =>
    have hc := findByKey_conflicts hf
    simp only [Proposals.create, ReadCommitted.Txn.read, ReadCommitted.Txn.alone,
      ReadCommitted.Txn.aloneAnswer, id_eq, hs, Proposals.checkReplay, hf, Proposals.replay, hc,
      if_true]
    split <;> exact ⟨rfl, rfl⟩
  | none =>
    simp only [Proposals.create, ReadCommitted.Txn.read, ReadCommitted.Txn.alone,
      ReadCommitted.Txn.aloneAnswer, id_eq, hs, Proposals.checkReplay, hf, if_true,
      Proposals.tryInsert]
    by_cases hc : Proposals.Conflicts d q
    · simp only [hc, if_true, Proposals.afterConflict, ReadCommitted.Txn.read,
        ReadCommitted.Txn.alone, ReadCommitted.Txn.aloneAnswer, hf]
      exact ⟨trivial, rfl⟩
    · simp only [hc, if_false, Proposals.writeItems, Proposals.setCommand,
        ReadCommitted.Txn.write, ReadCommitted.Txn.alone, ReadCommitted.Txn.aloneAnswer]
      subst hq
      exact ⟨rfl, rfl⟩

lemma ne_nil_of_schema {items : List AgentProposalItem}
    (h : createProposalSchema items = true) : ¬ (items = [] ∨ items.length > 200) := by
  simp only [createProposalSchema, Bool.and_eq_true, decide_eq_true_eq] at h
  rintro (rfl | hl)
  · simp at h
  · exact absurd h.1.1.2 (Nat.not_le.mpr hl)

variable (newId newItemIds) in
/-- **What becomes of a report on a command that is `ANALYZING`.** -/
lemma At.dispatch (h : At userId deviceId c .analyzing d) (r : Report) :
    ((dispatch userId deviceId c newId newItemIds d r).2 = true ↔
        Acceptable userId deviceId c newId newItemIds d r) ∧
      (Moves userId deviceId c newId newItemIds d r →
        At userId deviceId c .failed (dispatch userId deviceId c newId newItemIds d r).1 ∨
        At userId deviceId c .waitingApproval
          (dispatch userId deviceId c newId newItemIds d r).1) ∧
      (¬ Moves userId deviceId c newId newItemIds d r →
        (dispatch userId deviceId c newId newItemIds d r).1 = d) := by
  cases r with
  | failed =>
    have hs : reportedStatus "FAILED" = some .failed := rfl
    have hc : canTransition .analyzing Server.Commands.Reported.failed.toStatus = true := by
      decide
    simp only [Commands.dispatch, h.updateStatus hs, ne_eq, reduceCtorEq, not_false_eq_true, hc,
      and_self, if_true, decide_true, Acceptable, Moves]
    exact ⟨trivial, fun _ => .inl (h.set .failed), fun hn => absurd trivial hn⟩
  | succeeded => exact ⟨by simp [Commands.dispatch, updateCommandStatus, reportedStatus,
      Acceptable], fun hm => hm.elim, fun _ => rfl⟩
  | proposal items =>
    simp only [Commands.dispatch, submitProposal, Acceptable, Moves]
    by_cases hs : createProposalSchema items = true
    · obtain ⟨h₁, h₂⟩ := h.create (rfl : _ = submission userId deviceId c newId newItemIds)
      simp only [ne_nil_of_schema hs, if_false, hs, if_true, true_and, h₁, h₂,
        decide_eq_true_eq]
      refine ⟨?_, fun hn => ?_, fun hn => if_pos (not_not.mp hn)⟩
      · change (match Proposals.findByKey d (toString c.commandId) with
          | some p => if Proposals.SameTarget p _ then 1 else 0
          | none => if Proposals.Conflicts d _ then 0 else 1) = 1 ↔ _
        cases Proposals.findByKey d (toString c.commandId) <;> simp only <;> split <;> simp_all
      · rw [if_neg hn]
        exact .inr ((h.insert _).set .waitingApproval)
    · simp only [hs, if_false, Bool.false_eq_true, false_and, not_false_eq_true]
      split <;> exact ⟨by simp, fun hm => hm.elim, fun _ => rfl⟩

/-- A report changes nothing about a command that is not `ANALYZING`. -/
lemma At.dispatch_other (h : At userId deviceId c st d)
    (hst : [.queued, .delivered, .failed, .waitingApproval].contains st) (r : Report) :
    (Commands.dispatch userId deviceId c newId newItemIds d r).1 = d := by
  have hana : st ≠ .analyzing := by
    rintro rfl
    exact absurd hst (by decide)
  cases r with
  | failed =>
    have hs : reportedStatus "FAILED" = some .failed := rfl
    have hc : canTransition st Server.Commands.Reported.failed.toStatus = false := by
      cases st <;> first | rfl | exact absurd hst (by decide)
    simp [Commands.dispatch, h.updateStatus hs, hc]
  | succeeded => rfl
  | proposal items =>
    simp only [Commands.dispatch, submitProposal]
    split
    · rfl
    · split
      · exact h.create_other hana
      · rfl

lemma At.flush_other (h : At userId deviceId c st d)
    (hst : [.queued, .delivered, .failed, .waitingApproval].contains st) (rows : List Row) :
    (flushOutbox userId deviceId c newId newItemIds rows d).1 = d := by
  induction rows with
  | nil => rfl
  | cons x rows ih =>
    rw [flushOutbox]
    split
    · simp only [h.dispatch_other hst]
      exact ih
    · exact ih

/-- **What a flush does**: the first pending report that moves the command settles it. -/
lemma At.flush (h : At userId deviceId c .analyzing d) (rows : List Row) :
    ((∃ x ∈ rows, x.state = .pending ∧ Moves userId deviceId c newId newItemIds d x.report) →
        At userId deviceId c .failed (flushOutbox userId deviceId c newId newItemIds rows d).1 ∨
        At userId deviceId c .waitingApproval
          (flushOutbox userId deviceId c newId newItemIds rows d).1) ∧
      ((¬ ∃ x ∈ rows, x.state = .pending ∧
          Moves userId deviceId c newId newItemIds d x.report) →
        (flushOutbox userId deviceId c newId newItemIds rows d).1 = d) := by
  induction rows with
  | nil => exact ⟨fun ⟨_, hx, _⟩ => (by cases hx), fun _ => rfl⟩
  | cons x rows ih =>
    obtain ⟨-, hm, hn⟩ := h.dispatch newId newItemIds x.report
    rw [flushOutbox]
    simp only [List.exists_mem_cons_iff]
    by_cases hp : x.state = .pending
    · simp only [hp, if_true, true_and]
      by_cases hx : Moves userId deviceId c newId newItemIds d x.report
      · refine ⟨fun _ => ?_, fun hno => absurd (.inl hx) hno⟩
        rcases hm hx with hf | hw
        · rw [hf.flush_other (by decide)]
          exact .inl hf
        · rw [hw.flush_other (by decide)]
          exact .inr hw
      · rw [hn hx]
        simpa only [hx, false_or] using ih
    · simpa only [hp, if_false, false_and, false_or] using ih

end Dispatch

/-! ### The outcome -/

/-- The intents that the desktop processes. -/
def Handled (c : AgentCommand) : Prop :=
  isContractCommandWithoutDesktopHandler c.commandType = true ∨
    isSupportedCommand c.commandType = true

/-- A supported command, which has a processor of its own. -/
def Supported (c : AgentCommand) : Prop :=
  isContractCommandWithoutDesktopHandler c.commandType = false ∧
    isSupportedCommand c.commandType = true

/-- The report that the processing of a command comes to, if it comes to one. -/
inductive Outcome (c : AgentCommand) (l : Local) (n : Network) : Report → Prop
  | noHandler (hc : isContractCommandWithoutDesktopHandler c.commandType = true)
    (ha : n.Answers c.status) : Outcome c l n .failed
  | refused {e} (hc : Supported c) (hp : parsePayload c = .error e) : Outcome c l n .failed
  | unclaimed {p} (hc : Supported c) (hp : parsePayload c = .ok p) (ha : ¬ n.Answers c.status) :
    Outcome c l n .failed
  | unbuilt {i m e} (hc : Supported c) (hp : parsePayload c = .ok (i, m))
    (ha : n.Answers c.status) (hb : buildItems l i m = .error e) : Outcome c l n .failed
  | empty {i m} (hc : Supported c) (hp : parsePayload c = .ok (i, m))
    (ha : n.Answers c.status) (hb : buildItems l i m = .ok [])
    (hd : isDirect c.commandType = false) : Outcome c l n .succeeded
  | built {i m items} (hc : Supported c) (hp : parsePayload c = .ok (i, m))
    (ha : n.Answers c.status) (hb : buildItems l i m = .ok items)
    (hd : ¬ (isDirect c.commandType = false ∧ items = [])) (hs : l.stores (.proposal items)) :
    Outcome c l n (.proposal items)
  | unstored {i m items} (hc : Supported c) (hp : parsePayload c = .ok (i, m))
    (ha : n.Answers c.status) (hb : buildItems l i m = .ok items)
    (hd : ¬ (isDirect c.commandType = false ∧ items = []))
    (hs : ¬ l.stores (.proposal items)) : Outcome c l n .failed

/-- The report gets a row: it is stored, and its key is free. -/
def Queues (c : AgentCommand) (l : Local) (n : Network) (rows : List Row) (r : Report) : Prop :=
  Outcome c l n r ∧ l.stores r = true ∧
    ∀ x ∈ rows, x.report.key c.commandId ≠ r.key c.commandId

/-- The claim is asked for at all. -/
def Asks (c : AgentCommand) : Prop :=
  isContractCommandWithoutDesktopHandler c.commandType = true ∨ ∃ p, parsePayload c = .ok p

section Process

variable {c : AgentCommand} {l : Local} {n : Network} {d : Db} {rows : List Row}

lemma tryEnqueue_of {r : Report} (hs : l.stores r = true)
    (hk : ∀ x ∈ rows, x.report.key c.commandId ≠ r.key c.commandId) :
    tryEnqueue l c.commandId rows r = rows ++ [⟨r, .pending⟩] := by
  rw [tryEnqueue, if_pos hs, enqueue, if_neg]
  simpa using hk

lemma tryEnqueue_not {r : Report} (h : ¬ (l.stores r = true ∧
    ∀ x ∈ rows, x.report.key c.commandId ≠ r.key c.commandId)) :
    tryEnqueue l c.commandId rows r = rows := by
  rw [tryEnqueue]
  split
  · rename_i hs
    rw [enqueue, if_pos]
    simpa [hs] using h
  · rfl

variable (l n rows) in
/-- **What processing does**: the claim, and one report at most. -/
lemma process_spec (h : At userId deviceId c c.status d)
    (hp : isProcessableCommandStatus c.status) (hc : Handled c) :
    (Asks c → (processCommand userId deviceId c l n d rows).1 =
        (claimCommandForAnalysis userId deviceId c n d).1) ∧
      (¬ Asks c → (processCommand userId deviceId c l n d rows).1 = d) ∧
      ((∃ r, Outcome c l n r ∧
          (processCommand userId deviceId c l n d rows).2 = tryEnqueue l c.commandId rows r) ∨
        (∀ r, ¬ Outcome c l n r) ∧
          (processCommand userId deviceId c l n d rows).2 = rows) := by
  have ha := (claims n h hp).answered
  unfold processCommand processSupported
  generalize claimCommandForAnalysis userId deviceId c n d = r at ha ⊢
  obtain ⟨d', b⟩ := r
  simp only [hp, not_true_eq_false, if_false]
  by_cases hn : isContractCommandWithoutDesktopHandler c.commandType = true
  · simp only [hn, if_true]
    refine ⟨fun _ => ?_, fun hno => absurd (.inl hn) hno, ?_⟩
    · cases b <;> rfl
    · cases b with
      | true => exact .inl ⟨_, .noHandler hn (ha.mp rfl), rfl⟩
      | false =>
        refine .inr ⟨fun r ho => ?_, rfl⟩
        cases ho with
        | noHandler _ hans => exact absurd (ha.mpr hans) (by simp)
        | _ => simp_all [Supported]
  · have hsup := hc.resolve_left hn
    have hs : Supported c := ⟨by simpa using hn, hsup⟩
    simp only [hn, hsup, if_false, Bool.false_eq_true, not_true_eq_false]
    cases hpp : parsePayload c with
    | error e =>
      refine ⟨fun hA => ?_, fun _ => rfl, .inl ⟨_, .refused hs hpp, rfl⟩⟩
      rcases hA with hA | ⟨p, hA⟩
      · exact absurd hA hn
      · rw [hpp] at hA
        cases hA
    | ok p =>
      obtain ⟨i, m⟩ := p
      have hA : Asks c := .inr ⟨_, hpp⟩
      refine ⟨fun _ => ?_, fun hno => absurd hA hno, .inl ?_⟩
      · cases b with
        | false => rfl
        | true =>
          simp only
          cases buildItems l i m with
          | error e => rfl
          | ok items =>
            simp only
            split <;> [rfl; (split <;> rfl)]
      · cases b with
        | false => exact ⟨_, .unclaimed hs hpp (fun hans => by simpa using ha.mpr hans), rfl⟩
        | true =>
          have hans := ha.mp rfl
          simp only
          cases hb : buildItems l i m with
          | error e => exact ⟨_, .unbuilt hs hpp hans hb, rfl⟩
          | ok items =>
            simp only
            by_cases hd : isDirect c.commandType = false ∧ items = []
            · obtain ⟨hd, rfl⟩ := hd
              exact ⟨_, .empty hs hpp hans hb hd, by simp [hd]⟩
            · by_cases hst : l.stores (.proposal items) = true
              · exact ⟨_, .built hs hpp hans hb hd hst, by simp [hd, hst, tryEnqueue]⟩
              · exact ⟨_, .unstored hs hpp hans hb hd hst, by simp [hd, hst]⟩

lemma outcome_unique {r r' : Report} (h : Outcome c l n r) (h' : Outcome c l n r') : r = r' := by
  cases h <;> cases h' <;> simp_all [Supported]

variable (userId deviceId l n d rows) in
/-- A command that the desktop does not process stays as it is. -/
lemma process_unhandled (hc : ¬ Handled c) :
    processCommand userId deviceId c l n d rows = (d, rows) := by
  simp only [Handled, not_or, Bool.not_eq_true] at hc
  simp [processCommand, hc.1, hc.2]

variable (l n rows) in
/-- The rows after processing: one new row at most. -/
lemma process_rows (h : At userId deviceId c c.status d)
    (hp : isProcessableCommandStatus c.status) (hc : Handled c) :
    (∃ r, Queues c l n rows r ∧
        (processCommand userId deviceId c l n d rows).2 = rows ++ [⟨r, .pending⟩]) ∨
      (∀ r, ¬ Queues c l n rows r) ∧ (processCommand userId deviceId c l n d rows).2 = rows := by
  obtain ⟨-, -, ⟨r, ho, hr⟩ | ⟨ho, hr⟩⟩ := process_spec l n rows h hp hc
  · by_cases hq : l.stores r = true ∧ ∀ x ∈ rows, x.report.key c.commandId ≠ r.key c.commandId
    · exact .inl ⟨r, ⟨ho, hq⟩, hr.trans (tryEnqueue_of hq.1 hq.2)⟩
    · refine .inr ⟨fun r' hq' => hq ?_, hr.trans (tryEnqueue_not hq)⟩
      rw [outcome_unique ho hq'.1]
      exact hq'.2
  · exact .inr ⟨fun r hq => ho r hq.1, hr⟩

/-- The command gets to `ANALYZING`: it is there, or its claim is asked for and arrives. -/
def Analyzed (c : AgentCommand) (n : Network) : Prop :=
  c.status = .analyzing ∨ Asks c ∧ n.Reaches c.status

variable (l n rows) in
/-- The tables after processing. -/
lemma process_tables (h : At userId deviceId c c.status d)
    (hp : isProcessableCommandStatus c.status) (hc : Handled c) :
    (processCommand userId deviceId c l n d rows).1.proposals = d.proposals ∧
      (Analyzed c n →
        At userId deviceId c .analyzing (processCommand userId deviceId c l n d rows).1) ∧
      (¬ Analyzed c n →
        At userId deviceId c .queued (processCommand userId deviceId c l n d rows).1 ∨
        At userId deviceId c .delivered (processCommand userId deviceId c l n d rows).1) := by
  obtain ⟨hasks, hnot, -⟩ := process_spec l n rows h hp hc
  have hcl := claims n h hp
  by_cases ha : Asks c
  · rw [hasks ha]
    refine ⟨hcl.proposals, fun hr => hcl.reached ?_, fun hr => hcl.left fun hn => hr ?_⟩
    · rcases hr with hst | ⟨-, hr⟩
      · rw [hst]
        trivial
      · exact hr
    · exact .inr ⟨ha, hn⟩
  · rw [hnot ha]
    refine ⟨rfl, fun hr => ?_, fun hr => ?_⟩
    · rcases hr with hst | ⟨hr, -⟩
      · exact hst ▸ h
      · exact absurd hr ha
    · cases hst : c.status with
      | queued => exact .inl (hst ▸ h)
      | delivered => exact .inr (hst ▸ h)
      | analyzing => exact absurd (.inl hst) hr
      | _ => simp [hst, isProcessableCommandStatus] at hp

variable (userId deviceId newId newItemIds c) in
lemma acceptable_congr {d' : Db} (h : d'.proposals = d.proposals) (r : Report) :
    Acceptable userId deviceId c newId newItemIds d' r ↔
      Acceptable userId deviceId c newId newItemIds d r := by
  cases r <;> simp only [Acceptable, Proposals.findByKey, Proposals.Conflicts, h]

variable (userId deviceId newId newItemIds c) in
lemma moves_congr {d' : Db} (h : d'.proposals = d.proposals) (r : Report) :
    Moves userId deviceId c newId newItemIds d' r ↔
      Moves userId deviceId c newId newItemIds d r := by
  cases r <;> simp only [Moves, Proposals.Conflicts, h]

/-- The server returns the command as long as its status is one of the first three. -/
lemma At.released {st : CommandStatus} (h : At userId deviceId c st d) :
    (∀ x ∈ Server.Commands.pending d deviceId, x.id ≠ c.commandId) ↔
      isProcessableCommandStatus st = false := by
  constructor
  · intro hn
    by_contra hst
    refine hn ⟨c.commandId, c.roomId, deviceId, st⟩ (List.mem_filter.mpr ⟨h.mem, ?_⟩) rfl
    have hroom := h.room
    simp only [isProcessableCommandStatus, Bool.not_eq_false] at hst
    simp only [hst, hroom, decide_true, Bool.and_self]
  · intro hst x hx hid
    obtain ⟨hx, hf⟩ := List.mem_filter.mp hx
    simp only [Bool.and_eq_true] at hf
    rw [h.status hx hid] at hf
    rw [isProcessableCommandStatus, hf.1.2] at hst
    cases hst

end Process

/-- The server hands the command out to the device. -/
structure HandedOut (userId deviceId : ℕ) (d : Db) (c : AgentCommand) : Prop where
  ids : (d.commands.map (·.id)).Nodup
  device : Server.Commands.activeDevice d userId deviceId
  mem : (⟨c.commandId, c.roomId, deviceId, c.status⟩ : Command) ∈
    Server.Commands.pending d deviceId

lemma HandedOut.at {c : AgentCommand} {d : Db} (h : HandedOut userId deviceId d c) :
    At userId deviceId c c.status d ∧ isProcessableCommandStatus c.status = true := by
  obtain ⟨hm, hf⟩ := List.mem_filter.mp h.mem
  simp only [Bool.and_eq_true] at hf
  exact ⟨⟨h.ids, hm, hf.2, h.device⟩, hf.1.2⟩

section Main

variable (userId deviceId) (c : AgentCommand) (l : Local) (n : Network) (d : Db)
  (rows : List Row) (newId : ℕ) (newItemIds : List ℕ)

/-- The desktop and the server agree on the progress of the command: what is queued is
accepted, and after a flush the command is no longer pending unless it is of an intent that
the desktop does not process. -/
structure Agrees : Prop where
  accepted : ∀ x ∈ (processCommand userId deviceId c l n d rows).2.drop rows.length,
    (dispatch userId deviceId c newId newItemIds
      (processCommand userId deviceId c l n d rows).1 x.report).2 = true
  released : Handled c → ∀ x ∈ Server.Commands.pending (flushOutbox userId deviceId c newId
    newItemIds (processCommand userId deviceId c l n d rows).2
      (processCommand userId deviceId c l n d rows).1).1 deviceId, x.id ≠ c.commandId

/-- The command gets to `ANALYZING`, a new row is acceptable, and some pending row moves the
command on. -/
structure Settles : Prop where
  analyzed : Analyzed c n
  acceptable : ∀ r, Queues c l n rows r → Acceptable userId deviceId c newId newItemIds d r
  moves : ∃ r, Moves userId deviceId c newId newItemIds d r ∧
    (Queues c l n rows r ∨ ⟨r, .pending⟩ ∈ rows)

variable {userId deviceId c d}

/-- **When the desktop and the server agree** on a command that is handed out. -/
theorem agrees_iff (h : HandedOut userId deviceId d c) :
    Agrees userId deviceId c l n d rows newId newItemIds ↔
      (Handled c → Settles userId deviceId c l n d rows newId newItemIds) := by
  by_cases hc : Handled c
  swap
  · have hp := process_unhandled userId deviceId l n d rows hc
    exact ⟨fun _ hh => absurd hh hc, fun _ => ⟨by simp [hp], fun hh => absurd hh hc⟩⟩
  obtain ⟨hat, hst⟩ := h.at
  obtain ⟨hprops, hana, hleft⟩ := process_tables l n rows hat hst hc
  have hrows := process_rows l n rows hat hst hc
  have hmoves := fun r => moves_congr userId deviceId newId newItemIds c hprops r
  have hacc := fun r => acceptable_congr userId deviceId newId newItemIds c hprops r
  constructor
  · intro hA _
    have hn : Analyzed c n := by
      by_contra hn
      have hrel := hA.released hc
      rcases hleft hn with hq | hq <;>
        exact absurd (hq.released.mp (by rwa [hq.flush_other (by decide)] at hrel)) (by decide)
    have ha := hana hn
    refine ⟨hn, fun r hq => ?_, ?_⟩
    · rcases hrows with ⟨r', hq', hr⟩ | ⟨hno, -⟩
      · obtain rfl := outcome_unique hq.1 hq'.1
        have hx := hA.accepted ⟨r, .pending⟩ (by rw [hr, List.drop_left]; exact List.mem_cons_self)
        exact (hacc r).mp ((ha.dispatch _ _ r).1.mp hx)
      · exact absurd hq (hno r)
    · by_contra hno
      have hrel := hA.released hc
      have hstay : ¬ ∃ x ∈ (processCommand userId deviceId c l n d rows).2,
          x.state = .pending ∧ Moves userId deviceId c newId newItemIds
            (processCommand userId deviceId c l n d rows).1 x.report := by
        rintro ⟨⟨r, st⟩, hx, rfl, hm⟩
        refine hno ⟨r, (hmoves r).mp hm, ?_⟩
        rcases hrows with ⟨r', hq', hr⟩ | ⟨-, hr⟩ <;> rw [hr] at hx
        · rcases List.mem_append.mp hx with hx | hx
          · exact .inr hx
          · rw [List.mem_singleton, Row.mk.injEq] at hx
            exact .inl (hx.1 ▸ hq')
        · exact .inr hx
      rw [(ha.flush _).2 hstay] at hrel
      exact absurd (ha.released.mp hrel) (by decide)
  · intro hS
    obtain ⟨hn, hok, r, hm, hr⟩ := hS hc
    have ha := hana hn
    refine ⟨fun x hx => (ha.dispatch _ _ x.report).1.mpr ((hacc _).mpr ?_), fun _ => ?_⟩
    · rcases hrows with ⟨r', hq', hr'⟩ | ⟨-, hr'⟩ <;> rw [hr'] at hx
      · rw [List.drop_left, List.mem_singleton] at hx
        rw [hx]
        exact hok r' hq'
      · simp at hx
    · have hx : ∃ x ∈ (processCommand userId deviceId c l n d rows).2, x.state = .pending ∧
          Moves userId deviceId c newId newItemIds
            (processCommand userId deviceId c l n d rows).1 x.report := by
        refine ⟨⟨r, .pending⟩, ?_, rfl, (hmoves r).mpr hm⟩
        rcases hrows with ⟨r', hq', hr'⟩ | ⟨hno, hr'⟩ <;> rw [hr']
        · rcases hr with hq | hr
          · rw [outcome_unique hq.1 hq'.1]
            exact List.mem_append_right _ List.mem_cons_self
          · exact List.mem_append_left _ hr
        · exact hr.resolve_left (hno r)
      rcases (ha.flush _).1 hx with hf | hf
      · exact hf.released.mpr rfl
      · exact hf.released.mpr rfl

end Main

/-- One command that the device `9` has not seen yet. -/
def sampleQueued : Db where
  devices := [⟨9, 1, true⟩]
  rooms := [⟨3, 1, 9, true⟩]
  commands := [⟨5, 3, 9, .queued⟩]
  proposals := []
  proposalItems := []
  decisions := []
  executions := []

def sampleAnalyze : AgentCommand := ⟨5, "ANALYZE", 3, .queued, true, .error "", .error ""⟩

def sampleNetwork : Network := ⟨.answered, .answered⟩

/-- The engine finds these proposals in the root. -/
def sampleLocal (proposals : List FileEngine.Proposal) : Local :=
  ⟨.ok ⟨"root", true⟩, .ok ⟨"/root", proposals⟩, fun _ => true⟩

lemma handedOut_sample : HandedOut 1 9 sampleQueued sampleAnalyze :=
  ⟨by decide, by decide, by decide⟩

/-- One file to be moved. -/
theorem agrees_iff_sample : Agrees 1 9 sampleAnalyze
    (sampleLocal [.plain .move "a" "b/a" 1 none]) sampleNetwork sampleQueued [] 7 [11] := by
  let l := sampleLocal [.plain .move "a" "b/a" 1 none]
  let items : List AgentProposalItem :=
    [⟨0, .move, some "a", some "b/a", "RULE_MOVE_BY_EXTENSION", .none⟩]
  refine (agrees_iff l sampleNetwork [] 7 [11] handedOut_sample).mpr fun _ => ?_
  have ho : Outcome sampleAnalyze l sampleNetwork (.proposal items) :=
    .built ⟨rfl, rfl⟩ rfl ⟨rfl, rfl⟩ rfl (by decide) rfl
  have hschema : createProposalSchema items = true := by decide +kernel
  have hfree : ¬ Proposals.Conflicts sampleQueued (submission 1 9 sampleAnalyze 7 [11]) := by
    decide
  refine ⟨.inr ⟨.inr ⟨_, rfl⟩, rfl, by decide⟩, fun r hq => ?_, .proposal items,
    ⟨hschema, hfree⟩, .inl ⟨ho, rfl, by simp⟩⟩
  rw [← outcome_unique ho hq.1]
  exact ⟨hschema, hfree⟩

/-- Nothing to tidy up: the desktop reports `SUCCEEDED`, which its own client refuses. -/
theorem not_agrees : ¬ ∀ userId deviceId c l n d rows newId newItemIds,
    HandedOut userId deviceId d c →
      Agrees userId deviceId c l n d rows newId newItemIds := by
  intro h
  have ha := (h 1 9 sampleAnalyze (sampleLocal []) sampleNetwork sampleQueued [] 7 [11]
    handedOut_sample).accepted
  revert ha
  decide +kernel

end MouseKeeper.Desktop.Commands
