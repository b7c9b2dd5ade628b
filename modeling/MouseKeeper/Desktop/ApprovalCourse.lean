import MouseKeeper.Desktop.ChatApproval

/-!
What becomes of the command, whatever calls and ticks do with it and however they fail.

There is one proposal at most, made of the files as they were; one decision on it, one execution of
the decision, and one run of its batch.
-/

namespace MouseKeeper.Desktop.ChatApproval

open MouseKeeper.Server
open Commands (AgentProposalItem ManagedRoot parsePayload)
open Transport (AgentError Fault httpError)

variable {Θ : Type}

namespace Draft

variable (draft : Draft Θ) (files : Θ)

/-- The items that the processing of the command comes to. -/
def plan : Except String (List AgentProposalItem) :=
  parsePayload draft.command >>= fun (rootId, maxProposals) =>
    draft.analyze files rootId maxProposals

def items : List AgentProposalItem :=
  match draft.plan files with
  | .ok items => items
  | .error _ => []

/-- Processing the command gives a proposal. -/
structure Proposes : Prop where
  handler : draft.hasHandler = true
  supported : Commands.isSupportedCommand draft.command.commandType = true
  plan : draft.plan files = .ok (draft.items files)

/-- The server takes this proposal. -/
structure Fruitful : Prop extends Proposes draft files where
  nonempty : 1 ≤ (draft.items files).length
  few : (draft.items files).length ≤ 200
  schema : Commands.createProposalSchema (draft.items files) = true

/-- What comes of running the batch of the proposal. -/
def batch : Except String (Executions.Outcome × String) × Θ :=
  match draft.binding with
  | .ok root => draft.engine.execute files root (draft.items files)
  | .error error => (.error error, files)

def decision (key : String) : Decision := ⟨0, draft.items files, key⟩

end Draft

/-- How far the command has come, with the key of the decision and the result that the server has of
the execution. -/
inductive Progress
  | fresh
  | proposed
  | decided (key : String)
  | claimed (key : String) (result : Option (Executions.Outcome × String))
  | ran (key : String) (result : Option (Executions.Outcome × String))

namespace Progress

def key : Progress → Option String
  | .fresh | .proposed => none
  | .decided key | .claimed key _ | .ran key _ => some key

def level : Progress → ℕ
  | .fresh => 0
  | .proposed => 1
  | .decided _ => 2
  | .claimed _ _ => 3
  | .ran _ _ => 4

variable (draft : Draft Θ) (files : Θ)

def proposals : Progress → List Proposal
  | .fresh => []
  | .proposed => [⟨draft.commandKey, draft.items files, .open⟩]
  | _ => [⟨draft.commandKey, draft.items files, .approved⟩]

def decisions (p : Progress) : List Decision := (p.key.map (draft.decision files)).toList

def executions : Progress → List Execution
  | .claimed _ result | .ran _ result => [⟨0, result⟩]
  | _ => []

def executed : Progress → List (Decision × Option Executions.Outcome)
  | .ran key _ => [(draft.decision files key, (draft.batch files).1.toOption.map Prod.fst)]
  | _ => []

def filesAfter : Progress → Θ
  | .ran _ _ => (draft.batch files).2
  | _ => files

end Progress

variable (draft : Draft Θ) (files : Θ)

/-- The server's record, the outbox and the files are those of the progress. -/
structure Holds (p : Progress) (x : Shared Θ) : Prop where
  proposals : x.server.proposals = p.proposals draft files
  decisions : x.server.decisions = p.decisions draft files
  executions : x.server.executions = p.executions
  executed : x.executed = p.executed draft files
  filesAfter : x.files = p.filesAfter draft files
  fruitful : 1 ≤ p.level → draft.Fruitful files
  row : ∀ row ∈ x.rows, ∀ items, row.report = .command (.proposal items) →
    draft.Proposes files ∧ items = draft.items files
  proposed : 1 ≤ p.level → ∃ row ∈ x.rows, ∃ items, row.report = .command (.proposal items)
  key : ∀ key, p.key = some key → ∃ k, key = "decision-" ++ k ∧
    x.server.confirmKey = some ("confirm-" ++ k)

/-- The call has a copy of the command from the server. -/
def Stage.confirmed : Stage → Bool
  | .ended _ | .confirm => false
  | _ => true

/-- What a stage can count on. -/
def Stage.Sound (p : Progress) : Stage → Prop
  | .work .deliver | .work .analyze =>
    draft.hasHandler = true → Commands.isSupportedCommand draft.command.commandType = true
  | .work .lookup | .work .propose => draft.hasHandler = true ∧
    Commands.isSupportedCommand draft.command.commandType = true
  | .getProposal q => q = 0 ∧ 1 ≤ p.level
  | .createDecision q items => q = 0 ∧ items = draft.items files ∧ 1 ≤ p.level
  | .executing (.create todo) => todo = [] ∨ todo = [0] ∧ p.level = 2
  | .executing (.lookup e d todo) => e = 0 ∧ d = 0 ∧ todo = [] ∧ p.level = 3
  | .executing (.execute root e d todo) =>
    e = 0 ∧ d = 0 ∧ todo = [] ∧ p.level = 3 ∧ draft.binding = .ok root
  | _ => True

def Call.Keyed (x : Shared Θ) (c : Call) : Prop :=
  ∀ a, c.caller = .chat a → c.stage.confirmed = true → x.server.confirmKey = some a.confirmKey

/-- If a key has been confirmed before, it is still the one. -/
structure Safe (k₀ : Option String) (p : Progress) (s : State Θ) : Prop where
  holds : Holds draft files p s.toShared
  confirmed : ∀ k, k₀ = some k → s.server.confirmKey = some k
  sound : ∀ c ∈ s.calls, c.stage.Sound draft files p
  keyed : ∀ c ∈ s.calls, c.Keyed s.toShared
  scan : ∀ i, s.scan = some i ↔ ∃ c, s.calls[i]? = some c ∧ c.stage.scans = true
  write : ∀ i, s.write = some i ↔ ∃ c, s.calls[i]? = some c ∧ c.stage.writes = true

variable {draft files} {k₀ : Option String} {p p' : Progress} {s t : State Θ} {x y : Shared Θ} {i : ℕ} {caller : Caller}
  {c c₀ : Call} {g g₀ : Stage}

/-! ### The calls -/

lemma Stage.Sound.later (h : g.Sound draft files p) (hle : p.level ≤ p'.level)
    (hsame : g.writes = true → 2 ≤ p.level → p'.level = p.level) : g.Sound draft files p' := by
  cases g with
  | getProposal q => exact ⟨h.1, h.2.trans hle⟩
  | createDecision q items => exact ⟨h.1, h.2.1, h.2.2.trans hle⟩
  | work w => cases w <;> exact h
  | executing e =>
    cases e with
    | pending => trivial
    | create todo => exact h.imp_right fun ht => ⟨ht.1, (hsame rfl ht.2.ge).trans ht.2⟩
    | lookup e d todo =>
      exact ⟨h.1, h.2.1, h.2.2.1, (hsame rfl (by rw [h.2.2.2]; decide)).trans h.2.2.2⟩
    | execute root e d todo =>
      obtain ⟨he, hd, htodo, hl, hb⟩ := h
      exact ⟨he, hd, htodo, (hsame rfl (by rw [hl]; decide)).trans hl, hb⟩
  | _ => trivial

lemma mem_set {cs : List Call} (hc : c ∈ cs.set i c₀) :
    c = c₀ ∨ ∃ j, j ≠ i ∧ cs[j]? = some c := by
  obtain ⟨j, hj⟩ := List.mem_iff_getElem?.mp hc
  rw [List.getElem?_set] at hj
  split_ifs at hj with hij hlt
  · exact .inl (Option.some.inj hj).symm
  · exact .inr ⟨j, Ne.symm hij, hj⟩

/-- A permit is held by the call whose stage needs it. -/
def Held (needs : Stage → Bool) (holder : Option ℕ) (cs : List Call) : Prop :=
  ∀ i, holder = some i ↔ ∃ c, cs[i]? = some c ∧ needs c.stage = true

lemma Held.unique {needs : Stage → Bool} {holder : Option ℕ} {cs : List Call} {j : ℕ}
    (h : Held needs holder cs) (hi : cs[i]? = some c) (hc : needs c.stage = true)
    (hj : cs[j]? = some c₀) (hc₀ : needs c₀.stage = true) : i = j :=
  Option.some.inj (((h i).mpr ⟨c, hi, hc⟩).symm.trans ((h j).mpr ⟨c₀, hj, hc₀⟩))

lemma Held.set {needs : Stage → Bool} {holder : Option ℕ} {cs : List Call}
    (h : Held needs holder cs) (hi : cs[i]? = some c₀)
    (hst : needs g = true → needs c₀.stage = true) :
    Held needs (if holder = some i ∧ needs g = false then none else holder)
      (cs.set i ⟨caller, g⟩) := by
  have hlt : i < cs.length := (List.getElem?_eq_some_iff.mp hi).1
  intro j
  rw [List.getElem?_set]
  by_cases hij : i = j
  · subst hij
    rw [if_pos rfl, if_pos hlt]
    cases hn : needs g with
    | true => simpa [hn] using (h i).mpr ⟨c₀, hi, hst hn⟩
    | false =>
      have hne : ∀ c, some (⟨caller, g⟩ : Call) = some c → ¬ needs c.stage = true := by
        intro c hc
        rw [← Option.some.inj hc, hn]
        exact Bool.false_ne_true
      refine iff_of_false (fun hj => ?_) fun ⟨c, hc, hcn⟩ => hne c hc hcn
      split_ifs at hj with hs
      exact hs ⟨hj, rfl⟩
  · rw [if_neg hij]
    refine Iff.trans ?_ (h j)
    split_ifs with hs
    · exact iff_of_false (fun hj => by cases hj) fun hj =>
        hij (Option.some.inj (hs.1.symm.trans hj))
    · rfl

/-- Another call takes the permit that nobody holds. -/
lemma Held.take {needs : Stage → Bool} {cs : List Call} (h : Held needs none cs)
    (hi : cs[i]? = some c₀) (hst : needs g = true) :
    Held needs (some i) (cs.set i ⟨caller, g⟩) := by
  have hlt : i < cs.length := (List.getElem?_eq_some_iff.mp hi).1
  intro j
  rw [List.getElem?_set]
  by_cases hij : i = j
  · subst hij
    rw [if_pos rfl, if_pos hlt]
    exact iff_of_true rfl ⟨_, rfl, hst⟩
  · rw [if_neg hij]
    exact iff_of_false (fun hj => hij (Option.some.inj hj)) fun hj => by
      cases (h j).mpr hj

variable (draft files) in
/-- What a step of a call has to keep, for the others. -/
structure Passes (p p' : Progress) (x y : Shared Θ) (g₀ : Stage) : Prop where
  holds : Holds draft files p' y
  level : p.level ≤ p'.level
  others : g₀.writes = true ∨ (2 ≤ p.level → p'.level = p.level)
  key : ∀ k, x.server.confirmKey = some k → y.server.confirmKey = some k

lemma Safe.calls (h : Safe draft files k₀ p s) (hi : s.calls[i]? = some ⟨caller, g₀⟩)
    (hx : Passes draft files p p' s.toShared y g₀)
    (hst : g.Sound draft files p') (hk : Call.Keyed y ⟨caller, g⟩) :
    (∀ c ∈ s.calls.set i ⟨caller, g⟩, c.stage.Sound draft files p') ∧
      ∀ c ∈ s.calls.set i ⟨caller, g⟩, c.Keyed y := by
  refine ⟨fun c hc => ?_, fun c hc => ?_⟩
  · rcases mem_set hc with rfl | ⟨j, hj, hcj⟩
    · exact hst
    · refine (h.sound c (List.mem_of_getElem? hcj)).later hx.level fun hw hl => ?_
      rcases hx.others with hw₀ | hsame
      · exact absurd (Held.unique h.write hcj hw hi hw₀) hj
      · exact hsame hl
  · rcases mem_set hc with rfl | ⟨j, -, hcj⟩
    · exact hk
    · exact fun a ha hca => hx.key _ (h.keyed c (List.mem_of_getElem? hcj) a ha hca)

/-- The calls and their permits are the same. -/
structure SameCalls (s t : State Θ) : Prop where
  calls : t.calls = s.calls
  scan : t.scan = s.scan
  write : t.write = s.write

/-- A call goes on. -/
lemma Safe.goTo (h : Safe draft files k₀ p s) (hi : s.calls[i]? = some ⟨caller, g₀⟩)
    (ht : SameCalls s t)
    (hx : Passes draft files p p' s.toShared t.toShared g₀)
    (hst : g.Sound draft files p') (hk : Call.Keyed t.toShared ⟨caller, g⟩)
    (hscan : g.scans = true → g₀.scans = true) (hwrite : g.writes = true → g₀.writes = true) :
    Safe draft files k₀ p' (t.goTo i caller g) := by
  obtain ⟨hsound, hkeyed⟩ := h.calls hi hx hst hk
  rw [← ht.calls] at hsound hkeyed
  refine ⟨hx.holds, fun k hk => hx.key k (h.confirmed k hk), hsound, hkeyed, ?_, ?_⟩
  · rw [State.goTo, ht.scan, ht.calls]
    exact Held.set h.scan hi hscan
  · rw [State.goTo, ht.write, ht.calls]
    exact Held.set h.write hi hwrite

/-- The same for a call that has its copy of the command. -/
lemma Safe.advance (h : Safe draft files k₀ p s) (hi : s.calls[i]? = some ⟨caller, g₀⟩)
    (ht : SameCalls s t)
    (hx : Passes draft files p p' s.toShared t.toShared g₀)
    (hst : g.Sound draft files p') (hc : g₀.confirmed = true)
    (hscan : g.scans = true → g₀.scans = true) (hwrite : g.writes = true → g₀.writes = true) :
    Safe draft files k₀ p' (t.goTo i caller g) :=
  h.goTo hi ht hx hst
    (fun a ha _ => hx.key _ (h.keyed _ (List.mem_of_getElem? hi) a ha hc)) hscan hwrite

/-- The stage needs nothing. -/
def Stage.free : Stage → Bool
  | .ended _ | .confirm | .tryScan _ | .flush _ _ | .openProposals | .tryWrite => true
  | _ => false

lemma sound_of_free (h : g.free = true) :
    g.Sound draft files p ∧ g.scans = false ∧ g.writes = false := by
  cases g <;> first | exact ⟨trivial, rfl, rfl⟩ | cases h

lemma Safe.advance_free (h : Safe draft files k₀ p s) (hi : s.calls[i]? = some ⟨caller, g₀⟩)
    (ht : SameCalls s t)
    (hx : Passes draft files p p' s.toShared t.toShared g₀)
    (hst : g.free = true) (hc : g₀.confirmed = true) :
    Safe draft files k₀ p' (t.goTo i caller g) := by
  obtain ⟨hsound, hscan, hwrite⟩ :
      g.Sound draft files p' ∧ g.scans = false ∧ g.writes = false := sound_of_free hst
  refine h.advance hi ht hx hsound hc (fun hs => ?_) fun hw => ?_
  · exact absurd (hscan.symm.trans hs) Bool.false_ne_true
  · exact absurd (hwrite.symm.trans hw) Bool.false_ne_true

/-! ### What the calls share -/

lemma Passes.refl (h : Holds draft files p x) : Passes draft files p p x x g :=
  ⟨h, le_rfl, .inr fun _ => rfl, fun _ hk => hk⟩

/-- Only the status of the command, the reports of failures and rows without a proposal change. -/
lemma Holds.passes (h : Holds draft files p x) (hp : y.server.proposals = x.server.proposals)
    (hd : y.server.decisions = x.server.decisions) (he : y.server.executions = x.server.executions)
    (hx : y.executed = x.executed) (hf : y.files = x.files)
    (hrows : ∀ items, (∃ row ∈ y.rows, row.report = .command (.proposal items)) ↔
      ∃ row ∈ x.rows, row.report = .command (.proposal items))
    (hk : ∀ k, x.server.confirmKey = some k → y.server.confirmKey = some k) :
    Passes draft files p p x y g where
  holds :=
    { proposals := hp.trans h.proposals
      decisions := hd.trans h.decisions
      executions := he.trans h.executions
      executed := hx.trans h.executed
      filesAfter := hf.trans h.filesAfter
      fruitful := h.fruitful
      row := fun row hrow items hr => by
        obtain ⟨row', hrow', hr'⟩ := (hrows items).mp ⟨row, hrow, hr⟩
        exact h.row row' hrow' items hr'
      proposed := fun hne => by
        obtain ⟨row, hrow, items, hr⟩ := h.proposed hne
        obtain ⟨row', hrow', hr'⟩ := (hrows items).mpr ⟨row, hrow, hr⟩
        exact ⟨row', hrow', items, hr'⟩
      key := fun key hkey => by
        obtain ⟨k, hk', hc⟩ := h.key key hkey
        exact ⟨k, hk', hk _ hc⟩ }
  level := le_rfl
  others := .inr fun _ => rfl
  key := hk

lemma mem_enqueue {rows : List Row} {r : Report} {row : Row} :
    row ∈ enqueue rows r ↔
      row ∈ rows ∨ (rows.any fun row => row.report.same r) = false ∧ row = ⟨r, .pending⟩ := by
  unfold enqueue
  split_ifs with h
  · exact ⟨.inl, fun hr => hr.elim id fun hr => absurd (h.symm.trans hr.1) (by decide)⟩
  · rw [List.mem_append, List.mem_singleton, and_iff_right (Bool.not_eq_true _ ▸ h)]

lemma same_proposal {r : Report} {items : List AgentProposalItem} :
    r.same (.command (.proposal items)) = true ↔ ∃ items', r = .command (.proposal items') := by
  cases r with
  | execution e outcome summary => simp [Report.same]
  | command r => cases r <;> simp [Report.same, Commands.Report.key]

/-- A row without a proposal is added. -/
lemma proposal_enqueue {rows : List Row} {r : Report} {items : List AgentProposalItem}
    (hr : ∀ items, r ≠ .command (.proposal items)) :
    (∃ row ∈ enqueue rows r, row.report = .command (.proposal items)) ↔
      ∃ row ∈ rows, row.report = .command (.proposal items) := by
  constructor
  · rintro ⟨row, hrow, hi⟩
    rcases mem_enqueue.mp hrow with hrow | ⟨-, rfl⟩
    · exact ⟨row, hrow, hi⟩
    · exact absurd hi (hr items)
  · rintro ⟨row, hrow, hi⟩
    exact ⟨row, mem_enqueue.mpr (.inl hrow), hi⟩

/-- The proposal is put into the outbox. -/
lemma Holds.enqueue_proposal (h : Holds draft files p x) {items : List AgentProposalItem}
    (hi : p.level = 0 → draft.Proposes files ∧ items = draft.items files) :
    Passes draft files p p x
      { x with rows := enqueue x.rows (.command (.proposal items)) } g where
  holds :=
    { h with
      row := fun row hrow items' hr => by
        rcases mem_enqueue.mp hrow with hrow | ⟨hnone, rfl⟩
        · exact h.row row hrow items' hr
        · cases hr
          refine hi (by_contra fun hne => ?_)
          obtain ⟨row, hrow, items', hr⟩ := h.proposed (Nat.pos_of_ne_zero hne)
          rw [List.any_eq_false] at hnone
          exact hnone row hrow (same_proposal.mpr ⟨items', hr⟩)
      proposed := fun hne => by
        obtain ⟨row, hrow, items', hr⟩ := h.proposed hne
        exact ⟨row, mem_enqueue.mpr (.inl hrow), items', hr⟩ }
  level := le_rfl
  others := .inr fun _ => rfl
  key := fun _ hk => hk

lemma report_updateState {rows : List Row} {state : Outbox.RowState} {r : Report} :
    (∃ row ∈ updateState rows i state, row.report = r) ↔ ∃ row ∈ rows, row.report = r := by
  have hmap : (updateState rows i state).map Row.report = rows.map Row.report := by
    refine List.ext_getElem? fun j => ?_
    rw [updateState, List.getElem?_map, List.getElem?_map, List.getElem?_modify]
    cases rows[j]? with
    | none => rfl
    | some row =>
      rw [Option.map_eq_map, Option.map_some, Option.map_some]
      split_ifs <;> rfl
  have hmem : r ∈ (updateState rows i state).map Row.report ↔ r ∈ rows.map Row.report := by
    rw [hmap]
  simpa only [List.mem_map] using hmem

/-! ### The server -/

lemma passes_status (h : Holds draft files p x) (status : CommandStatus) :
    Passes draft files p p x { x with server.status := status } g :=
  h.passes rfl rfl rfl rfl rfl (fun _ => Iff.rfl) fun _ hk => hk

lemma updateCommandStatus_eq (r : Record) (status : Server.Commands.Reported) :
    ∃ status', (r.updateCommandStatus status).2 = { r with status := status' } := by
  unfold Record.updateCommandStatus
  split_ifs
  · exact ⟨r.status, rfl⟩
  · exact ⟨status.toStatus, rfl⟩
  · exact ⟨r.status, rfl⟩

lemma confirmCommandDraft_eq (r : Record) (key : String) :
    (r.confirmCommandDraft key).2 = { r with confirmKey := some (r.confirmKey.getD key) } := by
  unfold Record.confirmCommandDraft
  cases hk : r.confirmKey with
  | none => rfl
  | some k =>
    rw [Option.getD_some]
    cases r
    cases hk
    rfl

lemma confirmCommandDraft_ok {r : Record} {key : String} {copy : CommandStatus}
    (h : (r.confirmCommandDraft key).1 = .ok copy) :
    copy = r.status ∧ (r.confirmCommandDraft key).2.confirmKey = some key := by
  unfold Record.confirmCommandDraft at h ⊢
  cases hk : r.confirmKey with
  | none =>
    rw [hk] at h
    cases h
    exact ⟨rfl, rfl⟩
  | some k =>
    rw [hk] at h
    dsimp only at h ⊢
    split_ifs at h with hkk
    cases h
    exact ⟨rfl, hk.trans (congrArg some hkk)⟩

lemma passes_confirm (h : Holds draft files p x) (key : String) :
    Passes draft files p p x
      { x with server := (x.server.confirmCommandDraft key).2 } g := by
  rw [confirmCommandDraft_eq]
  refine h.passes rfl rfl rfl rfl rfl (fun _ => Iff.rfl) fun k hk => ?_
  dsimp only
  rw [hk]
  rfl

/-- The execution has its result. -/
def Progress.withResult (outcome : Executions.Outcome) (summary : String) : Progress → Progress
  | .claimed key none => .claimed key (some (outcome, summary))
  | .ran key none => .ran key (some (outcome, summary))
  | p => p

section

variable (outcome : Executions.Outcome) (summary : String)

@[simp] lemma withResult_level : (p.withResult outcome summary).level = p.level := by
  unfold Progress.withResult
  split <;> rfl

@[simp] lemma withResult_key : (p.withResult outcome summary).key = p.key := by
  unfold Progress.withResult
  split <;> rfl

@[simp] lemma withResult_proposals :
    (p.withResult outcome summary).proposals draft files = p.proposals draft files := by
  unfold Progress.withResult
  split <;> rfl

@[simp] lemma withResult_executed :
    (p.withResult outcome summary).executed draft files = p.executed draft files := by
  unfold Progress.withResult
  split <;> rfl

@[simp] lemma withResult_filesAfter :
    (p.withResult outcome summary).filesAfter draft files = p.filesAfter draft files := by
  unfold Progress.withResult
  split <;> rfl

lemma passes_withResult (h : Holds draft files p x) (status : CommandStatus) :
    Passes draft files p (p.withResult outcome summary) x
      { x with
        server.status := status
        server.executions := (p.withResult outcome summary).executions } g where
  holds :=
    { proposals := by rw [withResult_proposals, ← h.proposals]
      decisions := by rw [Progress.decisions, withResult_key]; exact h.decisions
      executions := rfl
      executed := by rw [withResult_executed, ← h.executed]
      filesAfter := by rw [withResult_filesAfter, ← h.filesAfter]
      fruitful := by rw [withResult_level]; exact h.fruitful
      row := h.row
      proposed := by rw [withResult_level]; exact h.proposed
      key := by rw [withResult_key]; exact h.key }
  level := (withResult_level outcome summary).ge
  others := .inr fun _ => withResult_level outcome summary
  key := fun _ hk => hk

end

lemma Passes.trans {p'' : Progress} {z : Shared Θ}
    (h : Passes draft files p p' x y g)
    (h' : Passes draft files p' p'' y z g) :
    Passes draft files p p'' x z g where
  holds := h'.holds
  level := h.level.trans h'.level
  others := by
    rcases h.others with hw | hsame
    · exact .inl hw
    · rcases h'.others with hw | hsame'
      · exact .inl hw
      · refine .inr fun hl => ?_
        rw [hsame' (hl.trans h.level), hsame hl]
  key := fun k hk => h'.key k (h.key k hk)

/-- The proposal reaches the server. -/
lemma passes_createProposal (h : Holds draft files p x) (hp : draft.Proposes files)
    (hrow : ∃ row ∈ x.rows, ∃ items, row.report = .command (.proposal items))
    (hlen : 1 ≤ (draft.items files).length ∧ (draft.items files).length ≤ 200) :
    ∃ p', Passes draft files p p' x
      { x with server := (x.server.createProposal draft.commandKey (draft.items files)).2 } g := by
  unfold Record.createProposal
  split_ifs with hs hany hstatus
  · exact ⟨p, .refl h⟩
  · exact ⟨p, .refl h⟩
  · obtain rfl : p = .fresh := by
      have hproposals := h.proposals
      cases p with
      | fresh => rfl
      | _ =>
        rw [hproposals] at hany
        simp [Progress.proposals] at hany
    refine ⟨.proposed, ?_, Nat.zero_le _, .inr fun hl => absurd hl (by decide), fun _ hk => hk⟩
    exact
      { h with
        proposals := by
          dsimp only
          rw [h.proposals]
          rfl
        fruitful := fun _ => ⟨hp, hlen.1, hlen.2, Bool.not_eq_false _ ▸ hs⟩
        proposed := fun _ => hrow
        key := fun key hk => by cases hk }
  · exact ⟨p, .refl h⟩

/-- The result of an execution reaches the server. -/
lemma passes_updateExecution (h : Holds draft files p x) (e : ℕ) (outcome : Executions.Outcome)
    (summary : String) :
    ∃ p', p'.level = p.level ∧ Passes draft files p p' x
      { x with server := (x.server.updateExecution e outcome summary).2 } g := by
  unfold Record.updateExecution
  split
  · exact ⟨p, rfl, .refl h⟩
  · rename_i execution he
    split
    · exact ⟨p, rfl, .refl h⟩
    · rename_i hnone
      refine ⟨_, withResult_level outcome summary, ?_⟩
      have hset : x.server.executions.set e { execution with result := some (outcome, summary) } =
          (p.withResult outcome summary).executions := by
        rw [h.executions] at he ⊢
        cases p with
        | claimed key result | ran key result =>
          cases e with
          | zero =>
            cases he
            cases hnone
            rfl
          | succ e => cases he
        | _ => cases he
      rw [hset]
      exact passes_withResult outcome summary h outcome.toCommandStatus

/-- A row is sent, and whatever becomes of the rows, they remain. -/
lemma passes_dispatch (h : Holds draft files p s.toShared) {row : Row} {rows : List Row}
    (hrow : row ∈ s.rows)
    (hrows : ∀ r, (∃ row ∈ rows, row.report = r) ↔ ∃ row ∈ s.rows, row.report = r) :
    ∃ p', Passes draft files p p' s.toShared
      { s.toShared with server := (s.dispatch draft row.report).2, rows } g := by
  obtain ⟨p', h'⟩ : ∃ p', Passes draft files p p' s.toShared
      { s.toShared with server := (s.dispatch draft row.report).2 } g := by
    unfold State.dispatch
    split
    · obtain ⟨status, hstatus⟩ := updateCommandStatus_eq s.server .failed
      rw [hstatus]
      exact ⟨p, passes_status h status⟩
    · exact ⟨p, .refl h⟩
    · rename_i items hr
      obtain ⟨hp, rfl⟩ := h.row row hrow items hr
      split_ifs with hlen
      · exact passes_createProposal h hp ⟨row, hrow, _, hr⟩ hlen
      · exact ⟨p, .refl h⟩
    · rename_i e outcome summary hr
      obtain ⟨p', -, h'⟩ := passes_updateExecution (g := g) h e outcome summary
      exact ⟨p', h'⟩
  refine ⟨p', h'.trans (h'.holds.passes rfl rfl rfl rfl rfl (fun items => ?_) fun _ hk => hk)⟩
  exact hrows _

/-- The chat decides on the proposal. -/
lemma passes_createDecision (h : Holds draft files p x) (hp : 1 ≤ p.level) {k : String}
    (hk : x.server.confirmKey = some ("confirm-" ++ k)) :
    ∃ p', Passes draft files p p' x
      { x with server :=
        (x.server.createDecision ⟨0, draft.items files, "decision-" ++ k⟩).2 } g := by
  unfold Record.createDecision
  split
  · exact ⟨p, .refl h⟩
  · rename_i hnone
    split
    · exact ⟨p, .refl h⟩
    · rename_i proposal hproposal
      rw [h.proposals] at hproposal
      split_ifs with hopen hitems
      · exact ⟨p, .refl h⟩
      · exact ⟨p, .refl h⟩
      · obtain rfl : p = .proposed := by
          cases p with
          | fresh => cases hproposal
          | proposed => rfl
          | _ =>
            cases hproposal
            cases of_not_not hopen
        cases hproposal
        refine ⟨.decided ("decision-" ++ k), ?_, by simp [Progress.level],
          .inr fun hl => absurd hl (by decide), fun _ hk => hk⟩
        exact
          { h with
            proposals := by
              dsimp only
              rw [h.proposals]
              rfl
            decisions := by
              dsimp only
              rw [h.decisions]
              rfl
            fruitful := fun _ => h.fruitful hp
            proposed := fun _ => h.proposed hp
            key := fun key hkey => ⟨k, (Option.some.inj hkey).symm, hk⟩ }

/-- The first execution of the decision. -/
lemma createExecution_eq {key : String} (h : Holds draft files (.decided key) x) :
    x.server.createExecution 0 = (.ok 0, { x.server with
      status := .executing, executions := [⟨0, none⟩] }) := by
  have hd : x.server.decisions[0]? = some (draft.decision files key) := by
    rw [h.decisions]
    rfl
  have hp : x.server.proposals[0]? = some ⟨draft.commandKey, draft.items files, .approved⟩ := by
    rw [h.proposals]
    rfl
  have hnone : x.server.executions = [] := h.executions
  rw [Record.createExecution, hd]
  dsimp only [Draft.decision]
  rw [hp, hnone]
  rfl

lemma passes_createExecution (h : Holds draft files p x) (hl : p.level = 2)
    (hst : g.writes = true) :
    (x.server.createExecution 0).1 = .ok 0 ∧ ∃ p', p'.level = 3 ∧
      Passes draft files p p' x
        { x with server := (x.server.createExecution 0).2 } g := by
  cases p with
  | decided key =>
    have hcreate := createExecution_eq h
    rw [hcreate]
    refine ⟨rfl, .claimed key none, rfl, ?_, by simp [Progress.level], .inl hst, fun _ hk => hk⟩
    exact
      { h with
        executions := rfl
        fruitful := fun _ => h.fruitful (by simp [Progress.level])
        proposed := fun _ => h.proposed (by simp [Progress.level]) }
  | _ => cases hl

/-- The batch is run. -/
lemma passes_execute (h : Holds draft files p x) (hl : p.level = 3) {root : ManagedRoot}
    (hroot : draft.binding = .ok root) (hst : g.writes = true) {r : Report}
    (hr : ∀ items, r ≠ .command (.proposal items)) :
    ∃ key, x.server.decisions[0]? = some (draft.decision files key) ∧ ∃ p', p'.level = 4 ∧
      Passes draft files p p' x
        { x with
          files := (draft.engine.execute x.files root (draft.items files)).2
          rows := enqueue x.rows r
          executed := x.executed ++ [(draft.decision files key,
            (draft.engine.execute x.files root (draft.items files)).1.toOption.map Prod.fst)] }
        g := by
  cases p with
  | claimed key result =>
    have hd : x.server.decisions[0]? = some (draft.decision files key) := by
      rw [h.decisions]
      rfl
    have hbatch : draft.engine.execute x.files root (draft.items files) = draft.batch files := by
      rw [Draft.batch, hroot, h.filesAfter]
      rfl
    have hrows : ∀ items, (∃ row ∈ enqueue x.rows r, row.report = .command (.proposal items)) ↔
        ∃ row ∈ x.rows, row.report = .command (.proposal items) := fun items =>
      proposal_enqueue hr
    have h' := (h.passes (y := { x with rows := enqueue x.rows r }) (g := g) rfl rfl rfl rfl rfl
      hrows fun _ hk => hk).holds
    refine ⟨key, hd, .ran key result, rfl, ?_, by simp [Progress.level], .inl hst, fun _ hk => hk⟩
    exact
      { h' with
        executed := by
          dsimp only
          rw [h.executed, hbatch]
          rfl
        filesAfter := congrArg Prod.snd hbatch
        fruitful := fun _ => h.fruitful (by simp [Progress.level])
        proposed := fun _ => h'.proposed (by simp [Progress.level]) }
  | _ => cases hl

/-! ### Commands -/

section

variable {w : Work} (h : Safe draft files k₀ p s) (hi : s.calls[i]? = some ⟨caller, .work w⟩)
  (ht : SameCalls s t)
  (hx : Passes draft files p p s.toShared t.toShared (.work w))

include h hi ht hx

lemma Safe.finishWork (status : CommandProcessingStatus) :
    Safe draft files k₀ p (t.finishWork i caller status) := by
  unfold State.finishWork
  split
  · exact h.advance_free hi ht hx rfl rfl
  · split <;> exact h.advance_free hi ht hx rfl rfl

lemma Safe.failWork (under : CommandStatus) (message : String) :
    Safe draft files k₀ p (t.failWork i caller under message) := by
  refine h.finishWork hi (t := { t with
    rows := enqueue t.rows (.command .failed)
    failures := t.failures ++ [(under, t.server.status)] })
    ⟨ht.calls, ht.scan, ht.write⟩ (hx.trans ?_) _
  exact hx.holds.passes rfl rfl rfl rfl rfl
    (fun items => proposal_enqueue fun items hr => by cases hr) fun _ hk => hk

lemma Safe.claimed
    (hs : draft.hasHandler = true → Commands.isSupportedCommand draft.command.commandType = true) :
    Safe draft files k₀ p (t.claimed draft i caller) := by
  unfold State.claimed
  split_ifs with hh
  · exact h.advance hi ht hx ⟨hh, hs hh⟩ rfl (fun _ => rfl) fun hw => by cases hw
  · exact h.failWork hi ht hx _ _

lemma Safe.claimFailed (under : CommandStatus) (message : String) :
    Safe draft files k₀ p (t.claimFailed draft i caller under message) := by
  unfold State.claimFailed
  split_ifs
  · exact h.failWork hi ht hx _ _
  · exact h.finishWork hi ht hx _

lemma Safe.claimCommandForAnalysis (copy : CommandStatus)
    (hs : draft.hasHandler = true → Commands.isSupportedCommand draft.command.commandType = true) :
    Safe draft files k₀ p (t.claimCommandForAnalysis draft i caller copy) := by
  unfold State.claimCommandForAnalysis
  split
  · exact h.advance hi ht hx hs rfl (fun _ => rfl) fun hw => by cases hw
  · exact h.advance hi ht hx hs rfl (fun _ => rfl) fun hw => by cases hw
  · exact h.claimed hi ht hx hs
  · exact h.claimFailed hi ht hx _ _

end

lemma Safe.beginWork (h : Safe draft files k₀ p s) {copy : CommandStatus}
    (hi : s.calls[i]? = some ⟨caller, .work (.begin copy)⟩) :
    Safe draft files k₀ p (s.beginWork draft i caller copy) := by
  have ht : SameCalls s s := ⟨rfl, rfl, rfl⟩
  have hx := Passes.refl (g := .work (.begin copy)) h.holds
  unfold State.beginWork
  split_ifs with hstatus hhandler hsupported
  · exact h.finishWork hi ht hx _
  · exact h.claimCommandForAnalysis hi ht hx copy fun hh => by cases hhandler.symm.trans hh
  · exact h.finishWork hi ht hx _
  · split
    · exact h.failWork hi ht hx _ _
    · exact h.claimCommandForAnalysis hi ht hx copy fun _ => Bool.not_eq_false _ ▸ hsupported

lemma Safe.propose (h : Safe draft files k₀ p s)
    (hi : s.calls[i]? = some ⟨caller, .work .propose⟩) :
    Safe draft files k₀ p (s.propose draft i caller) := by
  have hsound := h.sound _ (List.mem_of_getElem? hi)
  unfold State.propose
  split
  · exact h.failWork hi ⟨rfl, rfl, rfl⟩ (.refl h.holds) _ _
  · rename_i items hitems
    dsimp only
    generalize hr : (if Commands.isDirect draft.command.commandType = false ∧ items = [] then
      Commands.Report.succeeded else .proposal items) = r
    refine h.finishWork hi (t := { s with rows := enqueue s.rows (.command r) })
      ⟨rfl, rfl, rfl⟩ ?_ _
    rw [← hr]
    split_ifs
    · exact h.holds.passes rfl rfl rfl rfl rfl
        (fun items => proposal_enqueue fun items hr => by cases hr) fun _ hk => hk
    · refine h.holds.enqueue_proposal fun hl => ?_
      have hfiles : s.files = files := by
        rw [h.holds.filesAfter]
        cases p with
        | fresh => rfl
        | _ => cases hl
      have hplan : draft.plan files = .ok items := hfiles ▸ hitems
      have heq : items = draft.items files := by rw [Draft.items, hplan]
      exact ⟨⟨hsound.1, hsound.2, heq ▸ hplan⟩, heq⟩

lemma Safe.goWork (h : Safe draft files k₀ p s) {w : Work}
    (hi : s.calls[i]? = some ⟨caller, .work w⟩) :
    Safe draft files k₀ p (s.goWork draft i caller w) := by
  have hsound := h.sound _ (List.mem_of_getElem? hi)
  have ht : SameCalls s s := ⟨rfl, rfl, rfl⟩
  cases w with
  | begin copy => exact h.beginWork hi
  | deliver =>
    obtain ⟨status, hstatus⟩ := updateCommandStatus_eq s.server .delivered
    rw [State.goWork]
    split
    · rename_i server heq
      have hserver : server = { s.server with status } := (congrArg Prod.snd heq).symm.trans hstatus
      subst hserver
      exact h.advance hi (t := { s with server := { s.server with status } }) ⟨rfl, rfl, rfl⟩
        (passes_status h.holds status) hsound rfl (fun _ => rfl) fun hw => by cases hw
    · exact h.claimFailed hi ht (.refl h.holds) _ _
  | analyze =>
    obtain ⟨status, hstatus⟩ := updateCommandStatus_eq s.server .analyzing
    rw [State.goWork]
    split
    · rename_i server heq
      have hserver : server = { s.server with status } := (congrArg Prod.snd heq).symm.trans hstatus
      subst hserver
      exact h.claimed hi (t := { s with server := { s.server with status } }) ⟨rfl, rfl, rfl⟩
        (passes_status h.holds status) hsound
    · exact h.claimFailed hi ht (.refl h.holds) _ _
  | lookup =>
    exact h.advance hi ht (.refl h.holds) hsound rfl (fun _ => rfl) fun hw => by cases hw
  | propose => exact h.propose hi

/-! ### The outbox and the decisions -/

lemma Safe.goFlush (h : Safe draft files k₀ p s) {batch : Option (List ℕ)} {executed : Bool}
    (hi : s.calls[i]? = some ⟨caller, .flush batch executed⟩) :
    ∃ p', p.level ≤ p'.level ∧ Safe draft files k₀ p' (s.goFlush draft i caller executed batch) := by
  have ht : SameCalls s s := ⟨rfl, rfl, rfl⟩
  unfold State.goFlush
  split
  · exact ⟨p, le_rfl, h.advance_free hi ht (.refl h.holds) rfl rfl⟩
  · unfold State.flushed
    split_ifs <;> exact ⟨p, le_rfl, h.advance_free hi ht (.refl h.holds) rfl rfl⟩
  · split
    · exact ⟨p, le_rfl, h.advance_free hi ht (.refl h.holds) rfl rfl⟩
    · rename_i j batch _ row hrow
      have hrows : ∀ r, (∃ row' ∈ updateState s.rows j
          (State.classify (s.dispatch draft row.report).1), row'.report = r) ↔
          ∃ row' ∈ s.rows, row'.report = r := fun r => report_updateState
      obtain ⟨p', h'⟩ := passes_dispatch (g := .flush (some (j :: batch)) executed) h.holds
        (List.mem_of_getElem? hrow) hrows
      exact ⟨p', h'.level, h.advance_free hi ⟨rfl, rfl, rfl⟩ h' rfl rfl⟩

/-- The decisions that are to be processed are those of the progress. -/
lemma pendingDecisions_eq (h : Holds draft files p x) :
    x.server.pendingDecisions = if p.level = 2 then [0] else [] := by
  rw [Record.pendingDecisions, h.decisions, h.executions]
  cases p <;> rfl

lemma Safe.executionFailed (h : Safe draft files k₀ p s) {e d : ℕ}
    (hi : s.calls[i]? = some ⟨caller, .executing (.lookup e d [])⟩) (message : String) :
    Safe draft files k₀ p (s.executionFailed i caller e message []) := by
  refine h.advance hi (t := { s with rows := enqueue s.rows (.execution e .failed message) })
    ⟨rfl, rfl, rfl⟩ ?_ (.inl rfl) rfl (fun hs => by cases hs) fun _ => rfl
  exact h.holds.passes rfl rfl rfl rfl rfl
    (fun items => proposal_enqueue fun items hr => by cases hr) fun _ hk => hk

lemma executionResult_ne (e : ℕ) (r : Except String (Executions.Outcome × String))
    (items : List AgentProposalItem) : executionResult e r ≠ .command (.proposal items) := by
  cases r <;> exact nofun

lemma Safe.goExecuting (h : Safe draft files k₀ p s) {e : Executing}
    (hi : s.calls[i]? = some ⟨caller, .executing e⟩) :
    ∃ p', p.level ≤ p'.level ∧ Safe draft files k₀ p' (s.goExecuting draft i caller e) := by
  have hsound := h.sound _ (List.mem_of_getElem? hi)
  have ht : SameCalls s s := ⟨rfl, rfl, rfl⟩
  cases e with
  | pending =>
    refine ⟨p, le_rfl, h.advance hi ht (.refl h.holds) ?_ rfl (fun hs => by cases hs) fun _ => rfl⟩
    rw [pendingDecisions_eq h.holds]
    split_ifs with hl
    · exact .inr ⟨rfl, hl⟩
    · exact .inl rfl
  | create todo =>
    rcases hsound with rfl | ⟨rfl, hl⟩
    · exact ⟨p, le_rfl, h.advance_free hi ht (.refl h.holds) rfl rfl⟩
    · obtain ⟨hok, p', hp', hx⟩ :=
        passes_createExecution (g := .executing (.create [0])) h.holds hl rfl
      rw [State.goExecuting]
      split
      · rename_i heq
        cases hok.symm.trans (congrArg Prod.fst heq)
      · rename_i e server heq
        obtain rfl : e = 0 := Except.ok.inj ((congrArg Prod.fst heq).symm.trans hok)
        obtain rfl := congrArg Prod.snd heq
        exact ⟨p', hx.level, h.advance hi ⟨rfl, rfl, rfl⟩ hx ⟨rfl, rfl, rfl, hp'⟩ rfl
          (fun hs => by cases hs) fun _ => rfl⟩
  | lookup e d todo =>
    obtain ⟨rfl, rfl, rfl, hl⟩ := hsound
    rw [State.goExecuting]
    split
    · exact ⟨p, le_rfl, h.executionFailed hi _⟩
    · rename_i root hroot
      split_ifs
      · exact ⟨p, le_rfl, h.advance hi ht (.refl h.holds) ⟨rfl, rfl, rfl, hl, hroot⟩ rfl
          (fun hs => by cases hs) fun _ => rfl⟩
      · exact ⟨p, le_rfl, h.executionFailed hi _⟩
  | execute root e d todo =>
    obtain ⟨rfl, rfl, rfl, hl, hroot⟩ := hsound
    obtain ⟨key, hd, p', -, hx⟩ := passes_execute (g := .executing (.execute root 0 0 [])) h.holds
      hl hroot rfl (executionResult_ne 0 (draft.engine.execute s.files root (draft.items files)).1)
    rw [State.goExecuting, hd]
    exact ⟨p', hx.level, h.advance hi ⟨rfl, rfl, rfl⟩ hx (.inl rfl) rfl
      (fun hs => by cases hs) fun _ => rfl⟩

/-! ### Steps -/

lemma Safe.fail (h : Safe draft files k₀ p s) (hi : s.calls[i]? = some ⟨caller, g₀⟩)
    (hst : g.free = true) (hc : g₀.confirmed = true) (message : String) :
    Safe draft files k₀ p (s.fail i caller message g) := by
  unfold State.fail
  split
  · exact h.advance_free hi ⟨rfl, rfl, rfl⟩ (.refl h.holds) rfl hc
  · exact h.advance_free hi ⟨rfl, rfl, rfl⟩ (.refl h.holds) hst hc

lemma Safe.confirm (h : Safe draft files k₀ p s) {a : Args}
    (hi : s.calls[i]? = some ⟨.chat a, .confirm⟩)
    (hst : (∃ copy, g = .tryScan (some copy) ∧
      (s.server.confirmCommandDraft a.confirmKey).1 = .ok copy) ∨ ∃ r, g = .ended r) :
    Safe draft files k₀ p ({ s with
      server := (s.server.confirmCommandDraft a.confirmKey).2 }.goTo i (.chat a) g) := by
  refine h.goTo hi ⟨rfl, rfl, rfl⟩ (passes_confirm h.holds _) ?_ ?_ ?_ ?_
  · rcases hst with ⟨copy, rfl, -⟩ | ⟨r, rfl⟩ <;> trivial
  · rcases hst with ⟨copy, rfl, hok⟩ | ⟨r, rfl⟩
    · intro a' ha' _
      cases ha'
      exact (confirmCommandDraft_ok hok).2
    · exact fun a' _ hc => by cases hc
  · rcases hst with ⟨copy, rfl, -⟩ | ⟨r, rfl⟩ <;> exact fun hs => by cases hs
  · rcases hst with ⟨copy, rfl, -⟩ | ⟨r, rfl⟩ <;> exact fun hs => by cases hs

lemma Safe.takeScan (h : Safe draft files k₀ p s) (hi : s.calls[i]? = some ⟨caller, g₀⟩)
    (hfree : s.scan = none) (hst : g.Sound draft files p) (hc : g₀.confirmed = true)
    (hscan : g.scans = true) (hwrite : g.writes = false) :
    Safe draft files k₀ p ({ s with scan := some i }.goTo i caller g) := by
  obtain ⟨hsound, hkeyed⟩ := h.calls hi (.refl h.holds) hst fun a ha _ =>
    h.keyed _ (List.mem_of_getElem? hi) a ha hc
  refine ⟨h.holds, h.confirmed, hsound, hkeyed, ?_, ?_⟩
  · have hnone : Held Stage.scans none s.calls := hfree ▸ h.scan
    have hkept : ¬ (some i = some i ∧ g.scans = false) := fun hc =>
      absurd (hscan.symm.trans hc.2) (by decide)
    rw [State.goTo]
    dsimp only
    rw [if_neg hkept]
    exact hnone.take hi hscan
  · exact Held.set h.write hi fun hw => absurd (hwrite.symm.trans hw) Bool.false_ne_true

lemma Safe.takeWrite (h : Safe draft files k₀ p s) (hi : s.calls[i]? = some ⟨caller, .tryWrite⟩)
    (hfree : s.write = none) :
    Safe draft files k₀ p ({ s with write := some i }.goTo i caller (.executing .pending)) := by
  obtain ⟨hsound, hkeyed⟩ := h.calls hi (g := .executing .pending) (.refl h.holds) trivial
    fun a ha _ => h.keyed _ (List.mem_of_getElem? hi) a ha rfl
  refine ⟨h.holds, h.confirmed, hsound, hkeyed, ?_, ?_⟩
  · exact Held.set h.scan hi fun hs => by cases hs
  · have hnone : Held Stage.writes none s.calls := hfree ▸ h.write
    have hkept : ¬ (some i = some i ∧ (Stage.executing .pending).writes = false) := fun hc => by
      cases hc.2
    rw [State.goTo]
    dsimp only
    rw [if_neg hkept]
    exact hnone.take hi rfl

lemma Safe.goCall (h : Safe draft files k₀ p s) {s' : State Θ}
    (hi : s.calls[i]? = some ⟨caller, g⟩) (hs : s.goCall draft i caller g = some s') :
    ∃ p', p.level ≤ p'.level ∧ Safe draft files k₀ p' s' := by
  have ht : SameCalls s s := ⟨rfl, rfl, rfl⟩
  have hsound := h.sound _ (List.mem_of_getElem? hi)
  cases g with
  | ended r => cases hs
  | confirm =>
    cases caller with
    | tick => cases hs
    | chat a =>
      rw [State.goCall] at hs
      split at hs
      · cases hs
        exact ⟨p, le_rfl, h.goTo hi ht (.refl h.holds) trivial (fun _ _ hc => by cases hc)
          (fun hs => by cases hs) fun hs => by cases hs⟩
      · rename_i copy server heq
        have hok : (s.server.confirmCommandDraft a.confirmKey).1 = .ok copy := congrArg Prod.fst heq
        obtain rfl : (s.server.confirmCommandDraft a.confirmKey).2 = server :=
          congrArg Prod.snd heq
        split_ifs at hs
        · cases hs
          exact ⟨p, le_rfl, h.confirm hi (.inl ⟨copy, rfl, hok⟩)⟩
        · cases hs
          exact ⟨p, le_rfl, h.confirm hi (.inr ⟨_, rfl⟩)⟩
  | tryScan copy =>
    unfold State.goCall at hs
    dsimp only at hs
    split_ifs at hs with hbusy
    · cases hs
      exact ⟨p, le_rfl, h.fail hi rfl rfl _⟩
    · have hfree : s.scan = none := Option.not_isSome_iff_eq_none.mp hbusy
      split at hs <;> cases hs
      · exact ⟨p, le_rfl, h.takeScan hi hfree trivial rfl rfl rfl⟩
      · exact ⟨p, le_rfl, h.takeScan hi hfree trivial rfl rfl rfl⟩
  | poll =>
    rw [State.goCall] at hs
    split at hs <;> cases hs
    · exact ⟨p, le_rfl, h.advance hi ht (.refl h.holds) trivial rfl (fun _ => rfl)
        fun hw => by cases hw⟩
    · exact ⟨p, le_rfl, h.advance_free hi ht (.refl h.holds) rfl rfl⟩
  | work w =>
    cases hs
    exact ⟨p, le_rfl, h.goWork hi⟩
  | flush batch executed =>
    cases hs
    exact h.goFlush hi
  | openProposals =>
    rw [State.goCall] at hs
    split at hs <;> cases hs
    · rename_i q hq
      refine ⟨p, le_rfl, h.advance hi ht (.refl h.holds) ?_ rfl (fun hs => by cases hs) fun hw => by
        cases hw⟩
      rw [Record.openProposal, h.holds.proposals] at hq
      cases p with
      | proposed => cases hq; exact ⟨rfl, le_rfl⟩
      | _ => cases hq
    · exact ⟨p, le_rfl, h.advance_free hi ht (.refl h.holds) rfl rfl⟩
  | getProposal q =>
    obtain ⟨rfl, hl⟩ := hsound
    rw [State.goCall] at hs
    split at hs <;> cases hs
    · rename_i proposal hproposal
      refine ⟨p, le_rfl, h.advance hi ht (.refl h.holds) ⟨rfl, ?_, hl⟩ rfl (fun hs => by cases hs)
        fun hw => by cases hw⟩
      rw [h.holds.proposals] at hproposal
      cases p <;> cases hproposal <;> rfl
    · exact ⟨p, le_rfl, h.advance_free hi ht (.refl h.holds) rfl rfl⟩
  | createDecision q items =>
    obtain ⟨rfl, rfl, hl⟩ := hsound
    cases caller with
    | tick => cases hs
    | chat a =>
      rw [State.goCall] at hs
      split at hs <;> cases hs
      · exact ⟨p, le_rfl, h.advance_free hi ht (.refl h.holds) rfl rfl⟩
      · rename_i server heq
        obtain rfl := congrArg Prod.snd heq
        have hk := h.keyed _ (List.mem_of_getElem? hi) a rfl rfl
        obtain ⟨p', hx⟩ := passes_createDecision
          (g := .createDecision 0 (draft.items files)) h.holds hl hk
        exact ⟨p', hx.level, h.advance_free hi ⟨rfl, rfl, rfl⟩ hx rfl rfl⟩
  | tryWrite =>
    rw [State.goCall] at hs
    split_ifs at hs with hbusy <;> cases hs
    · exact ⟨p, le_rfl, h.fail hi rfl rfl _⟩
    · exact ⟨p, le_rfl, h.takeWrite hi (Option.not_isSome_iff_eq_none.mp hbusy)⟩
  | executing e =>
    cases hs
    exact h.goExecuting hi

lemma Safe.executionLost (h : Safe draft files k₀ p s) {d : ℕ} {todo : List ℕ}
    (hi : s.calls[i]? = some ⟨caller, .executing (.create (d :: todo))⟩) (served : Bool) :
    ∃ p', p.level ≤ p'.level ∧ Safe draft files k₀ p'
      ((s.reached served (s.server.createExecution d).2).goTo i caller
        (.executing (.create todo))) := by
  obtain hnil | ⟨hcons, hl⟩ := h.sound _ (List.mem_of_getElem? hi)
  · cases hnil
  · cases hcons
    cases served with
    | false =>
      exact ⟨p, le_rfl, h.advance hi ⟨rfl, rfl, rfl⟩ (.refl h.holds) (.inl rfl) rfl
        (fun hs => by cases hs) fun _ => rfl⟩
    | true =>
      obtain ⟨-, p', -, hx⟩ :=
        passes_createExecution (g := .executing (.create [0])) h.holds hl rfl
      exact ⟨p', hx.level, h.advance hi ⟨rfl, rfl, rfl⟩ hx (.inl rfl) rfl
        (fun hs => by cases hs) fun _ => rfl⟩

/-- The status that a lost claim has reached changes nothing for the calls. -/
lemma Safe.reached (h : Safe draft files k₀ p t) (served : Bool) {server : Record}
    (hserver : ∃ status, server = { t.server with status := status }) :
    Safe draft files k₀ p (t.reached served server) := by
  obtain ⟨status, rfl⟩ := hserver
  cases served with
  | false => exact h
  | true => exact ⟨(passes_status (g := .confirm) h.holds status).holds, h.confirmed, h.sound,
      h.keyed, h.scan, h.write⟩

lemma server_finishWork (status : CommandProcessingStatus) :
    (s.finishWork i caller status).server = s.server := by
  unfold State.finishWork
  split
  · rfl
  · split <;> rfl

lemma server_claimFailed (under : CommandStatus) (message : String) :
    (s.claimFailed draft i caller under message).server = s.server := by
  unfold State.claimFailed
  split_ifs <;> exact server_finishWork _

lemma Safe.loseCall (h : Safe draft files k₀ p s) {s' : State Θ} {f : Fault} {served : Bool}
    (hi : s.calls[i]? = some ⟨caller, g⟩)
    (hs : s.loseCall draft i caller f served g = some s') :
    ∃ p', p.level ≤ p'.level ∧ Safe draft files k₀ p' s' := by
  have ht : SameCalls s s := ⟨rfl, rfl, rfl⟩
  have hsound := h.sound _ (List.mem_of_getElem? hi)
  unfold State.loseCall at hs
  split at hs
  · split at hs <;> cases hs
    cases served with
    | false =>
      exact ⟨p, le_rfl, h.goTo hi ht (.refl h.holds) trivial (fun _ _ hc => by cases hc)
        (fun hs => by cases hs) fun hs => by cases hs⟩
    | true => exact ⟨p, le_rfl, h.confirm hi (.inr ⟨_, rfl⟩)⟩
  · cases hs
    exact ⟨p, le_rfl, h.advance_free hi ht (.refl h.holds) rfl rfl⟩
  · cases hs
    refine ⟨p, le_rfl, (h.claimFailed hi ht (.refl h.holds) _ _).reached served ?_⟩
    rw [server_claimFailed]
    exact updateCommandStatus_eq s.server .delivered
  · cases hs
    refine ⟨p, le_rfl, (h.claimFailed hi ht (.refl h.holds) _ _).reached served ?_⟩
    rw [server_claimFailed]
    exact updateCommandStatus_eq s.server .analyzing
  · cases hs
    exact ⟨p, le_rfl, h.failWork hi ht (.refl h.holds) _ _⟩
  · rename_i j batch executed
    split at hs <;> cases hs
    rename_i row hrow
    have hrows : ∀ r, (∃ row' ∈ updateState s.rows j
        (State.classify (.error f.error)), row'.report = r) ↔
        ∃ row' ∈ s.rows, row'.report = r := fun r => report_updateState
    cases served with
    | false =>
      refine ⟨p, le_rfl, h.advance_free hi ⟨rfl, rfl, rfl⟩ ?_ rfl rfl⟩
      exact h.holds.passes rfl rfl rfl rfl rfl (fun items => hrows _) fun _ hk => hk
    | true =>
      obtain ⟨p', hx⟩ := passes_dispatch (g := .flush (some (j :: batch)) executed) h.holds
        (List.mem_of_getElem? hrow) hrows
      exact ⟨p', hx.level, h.advance_free hi ⟨rfl, rfl, rfl⟩ hx rfl rfl⟩
  · cases hs
    exact ⟨p, le_rfl, h.advance_free hi ht (.refl h.holds) rfl rfl⟩
  · cases hs
    exact ⟨p, le_rfl, h.advance_free hi ht (.refl h.holds) rfl rfl⟩
  · obtain ⟨rfl, rfl, hl⟩ := hsound
    split at hs <;> cases hs
    cases served with
    | false => exact ⟨p, le_rfl, h.advance_free hi ht (.refl h.holds) rfl rfl⟩
    | true =>
      have hk := h.keyed _ (List.mem_of_getElem? hi) _ rfl rfl
      obtain ⟨p', hx⟩ := passes_createDecision
        (g := .createDecision 0 (draft.items files)) h.holds hl hk
      exact ⟨p', hx.level, h.advance_free hi ⟨rfl, rfl, rfl⟩ hx rfl rfl⟩
  · cases hs
    exact ⟨p, le_rfl, h.fail hi rfl rfl _⟩
  · cases hs
    exact h.executionLost hi served
  · cases hs
    obtain ⟨rfl, rfl, rfl, -⟩ := hsound
    exact ⟨p, le_rfl, h.executionFailed hi _⟩
  · cases hs

lemma Held.append {needs : Stage → Bool} {holder : Option ℕ} {cs : List Call}
    (h : Held needs holder cs) (hc : needs c.stage = false) :
    Held needs holder (cs ++ [c]) := by
  intro j
  refine (h j).trans (exists_congr fun c' => and_congr_left fun hn => ?_)
  rcases lt_trichotomy j cs.length with hlt | rfl | hgt
  · rw [List.getElem?_append_left hlt]
  · rw [List.getElem?_append_right le_rfl, Nat.sub_self, List.getElem?_eq_none le_rfl]
    refine iff_of_false (fun hn => by cases hn) fun hc' => ?_
    cases hc'
    exact absurd (hc.symm.trans hn) (by decide)
  · rw [List.getElem?_eq_none hgt.le, List.getElem?_eq_none (by rw [List.length_append]; exact hgt)]

lemma Safe.start (h : Safe draft files k₀ p s) (hc : c.stage.free = true)
    (hk : c.Keyed s.toShared) : Safe draft files k₀ p (s.start c) := by
  obtain ⟨hsound, hscan, hwrite⟩ :
    c.stage.Sound draft files p ∧ c.stage.scans = false ∧ c.stage.writes = false := sound_of_free hc
  refine ⟨h.holds, h.confirmed, fun c' hc' => ?_, fun c' hc' => ?_, ?_, ?_⟩
  · rcases List.mem_append.mp hc' with hc' | hc'
    · exact h.sound c' hc'
    · rw [List.mem_singleton.mp hc']
      exact hsound
  · rcases List.mem_append.mp hc' with hc' | hc'
    · exact h.keyed c' hc'
    · rw [List.mem_singleton.mp hc']
      exact hk
  · exact Held.append h.scan hscan
  · exact Held.append h.write hwrite

lemma crashed_ended (c : Call) : ∃ r, State.crashed c = ⟨c.caller, .ended r⟩ := by
  unfold State.crashed
  split
  · rename_i r hr
    exact ⟨r, by rw [← hr]⟩
  · exact ⟨_, rfl⟩

lemma Safe.crash (h : Safe draft files k₀ p s) : Safe draft files k₀ p
    { s with scan := none, write := none, calls := s.calls.map State.crashed } := by
  have hended : ∀ c ∈ s.calls.map State.crashed, ∃ r, c.stage = .ended r := by
    intro c hc
    obtain ⟨c₀, -, rfl⟩ := List.mem_map.mp hc
    obtain ⟨r, hr⟩ := crashed_ended c₀
    exact ⟨r, by rw [hr]⟩
  have hheld : ∀ needs : Stage → Bool, (∀ r, needs (.ended r) = false) →
      Held needs none (s.calls.map State.crashed) := by
    refine fun needs hn j => iff_of_false (fun hj => by cases hj) ?_
    rintro ⟨c, hc, hneeds⟩
    obtain ⟨r, hr⟩ := hended c (List.mem_of_getElem? hc)
    rw [hr, hn] at hneeds
    cases hneeds
  refine ⟨h.holds, h.confirmed, fun c hc => ?_, fun c hc => ?_, hheld _ fun _ => rfl,
    hheld _ fun _ => rfl⟩
  · obtain ⟨r, hr⟩ := hended c hc
    rw [hr]
    trivial
  · obtain ⟨r, hr⟩ := hended c hc
    intro a _ hconf
    rw [hr] at hconf
    cases hconf

/-- **One step.** -/
theorem Safe.step {e : Event} {s' : State Θ} (h : Safe draft files k₀ p s)
    (hs : s.step draft e = some s') : ∃ p', p.level ≤ p'.level ∧ Safe draft files k₀ p' s' := by
  cases e with
  | approve a =>
    cases hs
    refine ⟨p, le_rfl, h.start ?_ fun a' _ hc => ?_⟩
    · dsimp only
      split_ifs <;> rfl
    · dsimp only at hc
      split_ifs at hc <;> cases hc
  | tick =>
    cases hs
    exact ⟨p, le_rfl, h.start rfl fun a ha => by cases ha⟩
  | go i =>
    obtain ⟨c, hi, hs⟩ := Option.bind_eq_some_iff.mp hs
    exact h.goCall hi hs
  | lose i f served =>
    obtain ⟨c, hi, hs⟩ := Option.bind_eq_some_iff.mp hs
    exact h.loseCall hi hs
  | crash =>
    cases hs
    exact ⟨p, le_rfl, h.crash⟩

lemma safe_init : Safe draft files none .fresh (State.init files) where
  holds :=
    { proposals := rfl
      decisions := rfl
      executions := rfl
      executed := rfl
      filesAfter := rfl
      fruitful := fun hl => by cases hl
      row := fun row hrow => by cases hrow
      proposed := fun hl => by cases hl
      key := fun key hk => by cases hk }
  confirmed := fun k hk => by cases hk
  sound := fun c hc => by cases hc
  keyed := fun c hc => by cases hc
  scan := fun i => iff_of_false (fun hi => by cases hi) fun ⟨c, hc, _⟩ => by cases hc
  write := fun i => iff_of_false (fun hi => by cases hi) fun ⟨c, hc, _⟩ => by cases hc

/-- **A whole run.** -/
theorem safe_run {es : List Event} (h : Safe draft files k₀ p s)
    (hr : Machine.run (State.step draft) s es = some t) :
    ∃ p', p.level ≤ p'.level ∧ Safe draft files k₀ p' t := by
  have hmeets : Machine.Meets (State.step draft) (fun _ _ => True) s es :=
    Machine.meets_of_forall fun _ _ _ => trivial
  refine Machine.run_invariant (I := fun s => ∃ p', p.level ≤ p'.level ∧ Safe draft files k₀ p' s) ?_
    ⟨p, le_rfl, h⟩ hmeets hr
  rintro s e s' ⟨p₁, hp₁, h₁⟩ - hs
  obtain ⟨p₂, hp₂, h₂⟩ := h₁.step hs
  exact ⟨p₂, hp₁.trans hp₂, h₂⟩

/-- **The command has one proposal at most, and its batch is run at most once.** -/
theorem once {es : List Event}
    (hr : Machine.run (State.step draft) (State.init files) es = some s) :
    s.server.proposals.length ≤ 1 ∧ s.executed.length ≤ 1 := by
  obtain ⟨p, -, h⟩ := safe_run safe_init hr
  rw [h.holds.proposals, h.holds.executed]
  cases p <;> exact ⟨by simp [Progress.proposals], by simp [Progress.executed]⟩

end MouseKeeper.Desktop.ChatApproval
