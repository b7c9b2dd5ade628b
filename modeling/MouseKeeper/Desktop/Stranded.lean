import MouseKeeper.Desktop.Delivery
import MouseKeeper.Desktop.RunOnce

/-!
Executions that are left behind.

The claim is on the server and the result in the outbox, and `pending` hides a decision as
soon as it has an execution. So a desktop that has stopped waiting for its claim, or that
ends before the result is in the outbox, never comes back to it.
-/

namespace MouseKeeper.Desktop.Execution

open MouseKeeper.ReadCommitted MouseKeeper.Server
open MouseKeeper.Server.Decisions (PublicDecision)

/-- The execution is running on the server, for this desktop. -/
def Running (c : Credential) (d : Db) (e : Server.Execution) : Prop :=
  e ∈ d.executions ∧ e.status = .executing ∧ e.desktopDeviceId = c.deviceId

/-- The result of the execution waits in the outbox. -/
def Stored (s : Outbox.Store) (executionId : ℕ) : Prop :=
  ∃ x ∈ s.rows, x.state = .pending ∧ x.key = toString executionId

/-- The server still lists the decision. -/
def Listed (c : Credential) (d : Db) (decisionId : ℕ) : Prop :=
  ∃ l, Decisions.pending d c.userId c.deviceId = .ok l ∧ ∃ r ∈ l, r.id = decisionId

/-- No execution is left behind. -/
def NoneStranded (c : Credential) (w : World) : Prop :=
  ∀ e, Running c w.server.db e → w.phase.current = some e.decisionId ∨
    Stored w.results e.id ∨ Listed c w.server.db e.decisionId

/-- A claim of this desktop is committed, as the first of its decision, only while the pass
is at the decision; the pass leaves a decision unfinished, and a result is given up, only
while the execution is not running. -/
def Minded (c : Credential) (w : World) : Label → Prop
  | .serve e => ∀ i a x b, e = .commit i a → w.server.calls i = some x →
      x.request.1 = .createExecution b → b.desktopDeviceId = c.deviceId →
      Claimed w.server.db b.decisionId ∨ ∃ r todo, w.phase = .claiming r todo ∧
        r.id = b.decisionId
  | .unclaimed | .notStored | .crash =>
      ∀ e, Running c w.server.db e → w.phase.current ≠ some e.decisionId
  | .rejected id _ => ∀ e, Running c w.server.db e → ∀ x ∈ w.results.rows, x.id = id →
      x.key ≠ toString e.id
  | _ => True

/-! ### The outbox -/

lemma stored_update {s : Outbox.Store} {id i : ℕ} {state : Outbox.RowState}
    {error : Option String} (h : Stored s i)
    (hn : ∀ x ∈ s.rows, x.id = id → x.key = toString i → state = .pending) :
    Stored (s.updateState id state error) i := by
  obtain ⟨x, hx, hp, hk⟩ := h
  by_cases hid : x.id = id
  · refine ⟨_, List.mem_map.mpr ⟨x, hx, if_pos ⟨hid, hp⟩⟩, hn x hx hid hk, hk⟩
  · refine ⟨x, List.mem_map.mpr ⟨x, hx, if_neg fun h => hid h.1⟩, hp, hk⟩

lemma stored_enqueue {s : Outbox.Store} {i : ℕ} {kind key payload : String}
    (h : Stored s i) : Stored (s.enqueue kind key payload) i := by
  rw [Outbox.Store.enqueue]
  split
  · exact h
  · obtain ⟨x, hx, hp, hk⟩ := h
    exact ⟨x, List.mem_append_left _ hx, hp, hk⟩

/-- A result that has no row yet gets one. -/
lemma stored_new {s : Outbox.Store} {i : ℕ} {kind payload : String}
    (hn : ∀ x ∈ s.rows, x.key ≠ toString i) :
    Stored (s.enqueue kind (toString i) payload) i := by
  rw [Outbox.Store.enqueue, if_neg]
  · exact ⟨_, List.mem_append_right _ List.mem_cons_self, rfl, rfl⟩
  · simp only [List.any_eq_true, Bool.and_eq_true, decide_eq_true_eq, not_exists, not_and]
    exact fun x hx _ => hn x hx

/-- Every row is the one of an execution of a decision that has been run. -/
def OfRuns (d : Db) (runs : List ℕ) (s : Outbox.Store) : Prop :=
  ∀ x ∈ s.rows, ∃ e ∈ d.executions, e.decisionId ∈ runs ∧ x.key = toString e.id

lemma OfRuns.update {d : Db} {runs : List ℕ} {s : Outbox.Store} {id : ℕ}
    {state : Outbox.RowState} {error : Option String} (h : OfRuns d runs s) :
    OfRuns d runs (s.updateState id state error) := by
  intro x hx
  obtain ⟨y, hy, rfl⟩ := List.mem_map.mp hx
  split <;> exact h y hy

lemma OfRuns.later {d d' : Db} {runs : List ℕ} {s : Outbox.Store} (h : OfRuns d runs s)
    (hd : AllKept d d') : OfRuns d' runs s := by
  intro x hx
  obtain ⟨e, he, hr, hk⟩ := h x hx
  obtain ⟨e', he', hke⟩ := hd e he
  exact ⟨e', he', by rwa [hke.decisionId], by rw [hk, hke.id]⟩

/-! ### The server -/

lemma result_ne (o : Executions.Outcome) : o.toStatus ≠ .executing := by
  cases o <;> simp [Executions.Outcome.toStatus]

/-- What is running after a commit was running before, or is the first claim of its
decision. -/
lemma running_commit {c : Credential} {d : Db} {x : Call Delegated Db Lock Code Response}
    {a : Response} {e : Server.Execution} (h : Standing d x) (hr : x.rest = .answer (.ok a))
    (he : Running c (x.view d) e) : Running c d e ∨
      ∃ b, x.request.1 = .createExecution b ∧ b.desktopDeviceId = c.deviceId ∧
        ¬ Claimed d b.decisionId ∧ e.decisionId = b.decisionId := by
  rw [Standing, hr] at h
  obtain ⟨hm, hs, hdev⟩ := he
  rcases h.commit with ⟨hf, -⟩ | ⟨g, hg, hq, hf⟩ <;> rw [Call.view, hf] at hm
  · exact .inl ⟨hm, hs, hdev⟩
  · cases g with
    | none | report | propose | settle => exact .inl ⟨hm, hs, hdev⟩
    | claim b p =>
      rcases List.mem_append.mp hm with hm | hm
      · exact .inl ⟨hm, hs, hdev⟩
      · rw [List.mem_singleton.mp hm] at hdev ⊢
        generalize x.request.1 = q at hq ⊢
        cases q with
        | createExecution b' =>
          obtain ⟨rfl, -⟩ := hq
          refine .inr ⟨_, rfl, hdev, ?_, rfl⟩
          rintro ⟨e', he', hd⟩
          exact (hg.1.fresh e' he').2.1 hd
        | _ => exact hq.elim
    | finish u e' p =>
      obtain ⟨y, hy, rfl⟩ := List.mem_map.mp hm
      split at hs
      · exact absurd hs (result_ne u.status)
      · rename_i hid
        rw [if_neg hid] at hdev ⊢
        exact .inl ⟨hy, hs, hdev⟩

/-! ### The invariant -/

structure World.Attended (c : Credential) (w : World) : Prop extends w.Safe where
  attended : ∀ e, Running c w.server.db e →
    w.phase.current = some e.decisionId ∨ Stored w.results e.id
  valid : w.results.Valid Outbox.plainKind
  rows : OfRuns w.server.db w.runs w.results
  working : ∀ r i todo, w.phase = .working r i todo → r.id ∈ w.runs ∧
    (∃ e ∈ w.server.db.executions, e.id = i ∧ e.decisionId = r.id) ∧
    ∀ x ∈ w.results.rows, x.key ≠ toString i

lemma World.Attended.initial {c : Credential} {d : Db} (h : Unproposed d) :
    (World.initial d).Attended c where
  toSafe := .initial h
  attended e he := by
    have hm := he.1
    simp [World.initial, State.quiet, h.executions] at hm
  valid := .empty _
  rows := by simp [OfRuns, World.initial, Outbox.Store.empty]
  working := by simp [World.initial]

/-- What is running is attended after a step of the server. -/
lemma World.Attended.serve {c : Credential} {w : World} {e : Event Delegated Code Response}
    {s'} (h : w.Attended c) (hok : Minded c w (.serve e))
    (hs : ReadCommitted.Step serveDelegated w.server e s') :
    ∀ x, Running c s'.db x → w.phase.current = some x.decisionId ∨ Stored w.results x.id := by
  cases hs with
  | @commit i y a hc hr =>
    intro x hx
    rcases running_commit (h.sound.call hc) hr hx with hx | ⟨b, hb, hdev, hn, hid⟩
    · exact h.attended x hx
    · rcases hok i a y b rfl hc hb hdev with hcl | ⟨r, todo, hp, hr⟩
      · exact absurd hcl hn
      · rw [hp, hid, ← hr]
        exact .inl rfl
  | begin | stmt | refuse | abort => exact h.attended

/-- Steps that leave no running execution, and no result of one, behind. -/
lemma World.Attended.leave {c : Credential} {w w' : World} (h : w.Attended c)
    (hsafe : w'.Safe) (hs : w'.server = w.server) (hr : w'.runs = w.runs)
    (hx : w'.results = w.results) (hp : ∀ r i todo, w'.phase ≠ .working r i todo)
    (hn : ∀ e, Running c w.server.db e → w.phase.current = some e.decisionId →
      w'.phase.current = some e.decisionId) : w'.Attended c where
  toSafe := hsafe
  attended e he := by
    rw [hs] at he
    rw [hx]
    exact (h.attended e he).imp_left (hn e he)
  valid := hx ▸ h.valid
  rows := by rw [hs, hr, hx]; exact h.rows
  working r i todo hw := absurd hw (hp r i todo)

/-- Changes of a row, after which the results of what is running still wait. -/
lemma World.Attended.mark {c : Credential} {w : World} (h : w.Attended c) {id : ℕ}
    {state : Outbox.RowState} {error : Option String}
    (hsafe : World.Safe { w with results := w.results.updateState id state error })
    (hn : ∀ e, Running c w.server.db e → ∀ x ∈ w.results.rows, x.id = id →
      x.key = toString e.id → state = .pending) :
    World.Attended c { w with results := w.results.updateState id state error } where
  toSafe := hsafe
  attended e he := (h.attended e he).imp_right fun hs => stored_update hs (hn e he)
  valid := h.valid.change (Outbox.later_update id state error)
  rows := h.rows.update
  working r i todo hw := by
    obtain ⟨hr, he, hx⟩ := h.working r i todo hw
    refine ⟨hr, he, fun x hm => ?_⟩
    obtain ⟨y, hy, rfl⟩ := List.mem_map.mp hm
    split <;> exact hx y hy

/-- **One step that meets the condition leaves nothing behind.** -/
lemma World.Attended.step {c : Credential} {w w' : World} {l : Label} (h : w.Attended c)
    (hok : Minded c w l) (hs : Step c w l w') : w'.Attended c := by
  obtain ⟨hsafe, hkept⟩ := h.toSafe.step hs
  cases hs with
  | @serve e s' hs =>
    refine ⟨hsafe, h.serve hok hs, h.valid, h.rows.later hkept, fun r i todo hw => ?_⟩
    obtain ⟨hr, ⟨x, hx, hid, hd⟩, hn⟩ := h.working r i todo hw
    obtain ⟨x', hx', hk⟩ := hkept x hx
    exact ⟨hr, ⟨x', hx', hk.id.trans hid, hk.decisionId.trans hd⟩, hn⟩
  | start hp | notListed hp | claim hp | listed hp | done hp =>
    exact h.leave hsafe rfl rfl rfl (fun _ _ _ hw => by cases hw)
      fun e _ hc => by rw [hp] at hc; cases hc
  | unclaimed hp | notStored hp =>
    exact h.leave hsafe rfl rfl rfl (fun _ _ _ hw => by cases hw)
      fun e he hc => absurd hc (hok e he)
  | crash =>
    exact h.leave hsafe rfl rfl rfl (fun _ _ _ hw => by cases hw)
      fun e he hc => absurd hc (hok e he)
  | @claimed r todo newId e hp ha =>
    obtain ⟨x, hx, hid, hkey⟩ := h.answers _ _ ha
    rw [h.sound.db.keys x hx] at hkey
    have hd : x.decisionId = r.id := toString_inj hkey
    refine ⟨hsafe, fun y hy => ?_, h.valid, fun z hz => ?_, fun r' i todo' hw => ?_⟩
    · rcases h.attended y hy with hc | hst
      · rw [hp] at hc
        exact .inl hc
      · exact .inr hst
    · obtain ⟨y, hy, hr, hk⟩ := h.rows z hz
      exact ⟨y, hy, List.mem_cons_of_mem _ hr, hk⟩
    · cases hw
      refine ⟨List.mem_cons_self, ⟨x, hx, hid, hd⟩, fun z hz hk => ?_⟩
      -- a row of this execution would be one of a decision that has been run
      obtain ⟨y, hy, hr, hk'⟩ := h.rows z hz
      have hyx : y = x := List.inj_on_of_nodup_map h.sound.db.executionIds hy hx
        ((toString_inj (hk'.symm.trans hk)).trans hid.symm)
      rw [hyx, hd] at hr
      exact h.unrun r (by rw [hp]; exact List.mem_cons_self) hr
  | @worked r i todo payload hp =>
    obtain ⟨hr, ⟨x, hx, hid, hd⟩, hn⟩ := h.working r i todo hp
    refine ⟨hsafe, fun y hy => .inr ?_, (h.valid.enqueue (by decide) _ payload).1,
      fun z hz => ?_, fun _ _ _ hw => by cases hw⟩
    · rcases h.attended y hy with hc | hst
      · rw [hp] at hc
        have hyx : y = x := h.sound.db.execution_unique hy.1 hx
          (by rw [hd]; exact (Option.some.inj hc).symm)
        rw [hyx, hid]
        exact stored_new hn
      · exact stored_enqueue hst
    · simp only [Outbox.Store.enqueue] at hz
      split at hz
      · exact h.rows z hz
      · rcases List.mem_append.mp hz with hz | hz
        · exact h.rows z hz
        · rw [List.mem_singleton.mp hz]
          exact ⟨x, hx, hd ▸ hr, by rw [hid]⟩
  | @sent x u hu a hx ha hk =>
    refine h.mark hsafe fun e he y hy hid hkey => ?_
    -- the answered result has ended the execution of the row
    obtain ⟨z, hz, hzu, hne⟩ := h.answers _ _ ha
    obtain rfl : y = x := List.inj_on_of_nodup_map h.valid.ids hy hx hid
    have hze : z = e := List.inj_on_of_nodup_map h.sound.db.executionIds hz he.1
      (hzu.trans (toString_inj (hk.symm.trans hkey)))
    exact absurd he.2.1 (hze ▸ hne)
  | retried id code => exact h.mark hsafe fun _ _ _ _ _ _ => rfl
  | rejected id code =>
    exact h.mark hsafe fun e he y hy hid hkey => absurd hkey (hok e he y hy hid)

/-- **No execution is left behind** in a run in which the desktop never stops waiting for a
claim that is or will be committed, never ends or fails to store the result while the
execution is running, and no result of a running execution is given up. -/
theorem none_stranded {d₀ : Db} (h₀ : Unproposed d₀) (c : Credential) {w : World}
    (hr : Reaches c (Minded c) (.initial d₀) w) : NoneStranded c w := by
  have h : w.Attended c := by
    induction hr with
    | refl => exact .initial h₀
    | tail _ hs ih =>
      obtain ⟨l, hs, hok⟩ := hs
      exact ih.step hok hs
  exact fun e he => (h.attended e he).imp_right .inl

lemma allows_minded : Allows (Minded sampleCredential) where
  other w e h i a x b _ hx hb := absurd hb (h i x hx b)
  claim w e hp h i a x b _ hx hb _ := by
    rw [h i x hx] at hb
    cases hb
    exact .inr ⟨_, _, hp, rfl⟩
  start _ := trivial
  listed _ := trivial
  claiming _ := trivial
  claimed _ _ := trivial
  worked _ _ := trivial

/-- The result of the batch waits in the outbox. -/
theorem none_stranded_sample : ∃ w, NoneStranded sampleCredential w ∧
    w.server.db.executions = [⟨31, 7, 21, 9, .executing, none, "21", none⟩] ∧
    w.phase = .between [] ∧ w.results.rows.map (·.key) = ["31"] :=
  ⟨_, none_stranded unproposed_sample sampleCredential
    ((reaches_working allows_minded).tail ⟨_, .worked "done" rfl, trivial⟩),
    by decide +kernel, rfl, by decide +kernel⟩

/-- The claim is committed but its answer is lost: the execution stays `EXECUTING`, and its
decision is no longer listed. -/
theorem not_none_stranded : ¬ ∀ d₀, Unproposed d₀ → ∀ c w,
    Reaches c any (.initial d₀) w → NoneStranded c w := by
  intro h
  have h₁ := (reaches_claiming allows_any).trans
    (reaches_next (q := sampleClaim) fun _ _ _ _ => trivial)
  have h₂ := h _ unproposed_sample _ _ (h₁.tail ⟨_, .unclaimed rfl, trivial⟩)
  have he : (served (sampleApproval ++ [sampleClaim]) (sampleTables, [])).1.executions =
      [⟨31, 7, 21, 9, .executing, none, "21", none⟩] := by decide +kernel
  have hl : Decisions.pending (served (sampleApproval ++ [sampleClaim]) (sampleTables, [])).1
      1 9 = .ok [] := by decide +kernel
  rcases h₂ ⟨31, 7, 21, 9, .executing, none, "21", none⟩
    ⟨by rw [sampleWorld, State.quiet, he]; exact List.mem_cons_self, rfl, rfl⟩ with hc | hc | hc
  · cases hc
  · obtain ⟨x, hx, -⟩ := hc
    cases hx
  · obtain ⟨l, hl', r, hr, -⟩ := hc
    have : l = [] := Except.ok.inj (hl'.symm.trans hl)
    rw [this] at hr
    cases hr

end MouseKeeper.Desktop.Execution
