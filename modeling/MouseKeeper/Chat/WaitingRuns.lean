import MouseKeeper.Chat.StepsKept

/-!
Runs of the agent that wait in vain.

A run waits in vain if it waits for a tool and none of its steps can be answered any more. That
happens if the request ends before the run has begun to wait for it, or if it ends on one of the
ways on which nobody wakes the run. Otherwise every run that waits has a step which wakes it.
-/

namespace MouseKeeper.Chat

open Storage Machine AgentRuns

/-- The browse request for which a tick is about to let its run wait. -/
def Call.holds : Call → Option ℕ
  | .tick _ (.selectRun pending) | .tick _ (.selectStep pending _)
  | .tick _ (.insertStep pending _) => pending.externalRequestId
  | _ => none

/-- The run that is about to wait, and its step. -/
def Call.awaits : Call → Option (ℕ × ℕ)
  | .tick run (.wait _ stepId) => some (run.id, stepId)
  | _ => none

/-! ### The claim and its condition -/

/-- While no call is in progress, a run that waits for a tool has a step that can be answered,
and the steps about requests that have ended are finished. -/
structure NoneInVain (w : World) : Prop where
  waiting : w.calls = [] → ∀ run ∈ w.runs, run.status = .waitingTool → ∃ s ∈ w.steps,
    s.runId = run.id ∧ s.status = .queued ∧ ∀ r, s.externalRequestId = some r → Requested w.toTables r
  ended : w.calls = [] → ∀ s ∈ w.steps, ∀ r, s.externalRequestId = some r →
    ¬ Requested w.toTables r → s.status ≠ .queued

/-- A tick is between the creation of the request and the change that lets its run wait. -/
def Underway (w : World) (requestId : ℕ) : Prop :=
  ∃ x ∈ w.calls, x.2.holds = some requestId ∨ ∃ s ∈ w.steps, ∃ runId,
    x.2.awaits = some (runId, s.id) ∧ s.externalRequestId = some requestId

/-- A statement of a call loses no run: a tick creates its request for a device that is there,
and finds no step that is finished already; and no request ends while a tick is about to let its
run wait for it, nor by the worker before its step is finished. -/
def OrderlyCall (reading : Reading) (w : World) (r : Reply) : Call → Prop
  | .tick _ (.ask false) => ∀ q, r.ai = .query (some q) → q.presence = true
  | .tick run (.selectStep pending _) => ∀ s, selectStep w.toTables run.id pending.toolName
      (reading.inputHash pending.input) = some s → s.status = .queued
  | .get _ request => request.status ≠ .failed → Requested w.toTables request.id →
      ¬ Underway w request.id
  | .expire (requestId :: _) => Requested w.toTables requestId →
      ¬ Underway w requestId ∧ Settled w.toTables requestId
  | _ => True

/-- The condition on the steps. An answer comes in time, when the run waits for it. -/
def Orderly (reading : Reading) (w : World) : Label → Prop
  | .advance i r => ∀ c, w.call i = some c → OrderlyCall reading w r c
  | .finish q => ∀ request, FileBrowse.owned w.toTables q = some request →
      Requested w.toTables q.requestId → ¬ Underway w q.requestId ∧
        (request.expiresAt ≤ w.now → Settled w.toTables q.requestId)
  | .completeTool q => ∀ s, toolOf w.toTables q = some s → s.status = .queued →
      ∀ x ∈ w.calls, ∀ runId, x.2.awaits ≠ some (runId, q.stepId)
  | _ => True

/-- A tick that leaves its run does not let it wait for a tool. -/
def Call.Leaving : Call → Prop
  | .tick _ (.leave status _) => status ≠ .waitingTool
  | _ => True

structure CallKept (t : Tables) (c : Call) : Prop where
  holds : ∀ r, c.holds = some r → Requested t r ∧ Unused t r
  awaits : ∀ x, c.awaits = some x → Awaited t x.1 x.2
  leaving : c.Leaving

structure WorldKept (w : World) : Prop where
  tables : Kept none w.toTables
  calls : ∀ x ∈ w.calls, CallKept w.toTables x.2
  alone : ∀ x ∈ w.calls, ∀ y ∈ w.calls, ∀ r, x.2.holds = some r → y.2.holds = some r → x.1 = y.1

variable {t t' : Tables} {ended used : Option ℕ} {finished : ℕ → Prop} {c : Call} {r : ℕ}

lemma CallKept.leaves (h : CallKept t c) (hl : Leaves ended used finished t t')
    (hended : ∀ r, c.holds = some r → some r ≠ ended) (hused : ∀ r, c.holds = some r → some r ≠ used)
    (hfinished : ∀ x, c.awaits = some x → ¬ finished x.2) : CallKept t' c :=
  ⟨fun r hr => ⟨hl.requested r (hended r hr) (h.holds r hr).1,
      hl.unused r (hused r hr) (h.holds r hr).2⟩,
    fun x hx => hl.awaited x.1 x.2 (hfinished x hx) (h.awaits x hx), h.leaving⟩

/-! ### The world -/

variable {w w' : World} {i : ℕ} {next : Option Call}

/-- What a step keeps, and whom it wakes. -/
structure StepKept (w w' : World) : Prop where
  kept : WorldKept w'
  resumes : Resumes w.toTables w'.toTables

/-- The other calls go on as before if nothing happens to what they are about to wait for. -/
lemma WorldKept.change (hw : WorldKept w) (hk : Kept none t')
    (hl : Leaves ended none finished w.toTables t') (hr : Resumes w.toTables t')
    (hfree : ∀ x ∈ w.calls, (∀ r, x.2.holds = some r → some r ≠ ended) ∧
      ∀ y, x.2.awaits = some y → ¬ finished y.2) : StepKept w { w with toTables := t' } :=
  ⟨⟨hk, fun x hx => (hw.calls x hx).leaves hl (hfree x hx).1 (by simp) (hfree x hx).2, hw.alone⟩, hr⟩

lemma mem_others {x : ℕ × Call} : x ∈ w.others i ↔ x ∈ w.calls ∧ x.1 ≠ i := by
  simp [World.others]

lemma WorldKept.went (hw : WorldKept w) (hk : Kept none t')
    (hl : Leaves ended used finished w.toTables t') (hr : Resumes w.toTables t')
    (hfree : ∀ x ∈ w.calls, x.1 ≠ i → (∀ r, x.2.holds = some r → some r ≠ ended ∧ some r ≠ used) ∧
      ∀ y, x.2.awaits = some y → ¬ finished y.2)
    (hnext : ∀ c, next = some c → CallKept t' c ∧ ∀ r, c.holds = some r → ∀ x ∈ w.calls,
      x.2.holds = some r → x.1 = i) : StepKept w (w.went i t' next) := by
  refine ⟨⟨hk, fun x hx => ?_, fun x hx y hy r hxr hyr => ?_⟩, hr⟩
  · rcases List.mem_append.mp hx with hx | hx
    · obtain ⟨c, hc, rfl⟩ := Option.map_eq_some_iff.mp (Option.mem_toList.mp hx)
      exact (hnext c hc).1
    · obtain ⟨hx, hne⟩ := mem_others.mp hx
      exact (hw.calls x hx).leaves hl (fun r hr => ((hfree x hx hne).1 r hr).1)
        (fun r hr => ((hfree x hx hne).1 r hr).2) (hfree x hx hne).2
  · rcases List.mem_append.mp hx with hx | hx <;> rcases List.mem_append.mp hy with hy | hy
    · obtain ⟨c, -, rfl⟩ := Option.map_eq_some_iff.mp (Option.mem_toList.mp hx)
      obtain ⟨c', -, rfl⟩ := Option.map_eq_some_iff.mp (Option.mem_toList.mp hy)
      rfl
    · obtain ⟨c, hc, rfl⟩ := Option.map_eq_some_iff.mp (Option.mem_toList.mp hx)
      exact ((hnext c hc).2 r hxr y (mem_others.mp hy).1 hyr).symm
    · obtain ⟨c, hc, rfl⟩ := Option.map_eq_some_iff.mp (Option.mem_toList.mp hy)
      exact (hnext c hc).2 r hyr x (mem_others.mp hx).1 hxr
    · exact hw.alone x (mem_others.mp hx).1 y (mem_others.mp hy).1 r hxr hyr

/-- No call is about to wait for the request. -/
lemma WorldKept.free (hw : WorldKept w)
    (hu : Requested w.toTables r → ¬ Underway w r) : ∀ x ∈ w.calls,
      (∀ r', x.2.holds = some r' → some r' ≠ some r) ∧ ∀ y, x.2.awaits = some y →
        ¬ ∃ s ∈ w.steps, s.id = y.2 ∧ s.externalRequestId = some r := by
  refine fun x hx => ⟨fun r' hr' he => ?_, fun y hy => ?_⟩
  · cases he
    exact hu ((hw.calls x hx).holds r hr').1 ⟨x, hx, .inl hr'⟩
  · rintro ⟨s, hs, hid, hsr⟩
    obtain ⟨s', hs', hid', -, hq⟩ := (hw.calls x hx).awaits y hy
    have he : s' = s := List.inj_on_of_nodup_map hw.tables.stepIds hs' hs (hid'.trans hid.symm)
    rw [he] at hq
    refine hu (hw.tables.requested s hs hq r hsr (by simp)) ⟨x, hx, .inr ⟨s, hs, y.1, ?_, hsr⟩⟩
    rw [hy, hid]

/-! ### Ticks -/

variable {reading : Reading} {run : AgentRun} {reply : Reply} {point : Point}

/-- A call that is about to do nothing to a run that waits. -/
def Call.Idle (c : Call) : Prop := c.holds = none ∧ c.awaits = none ∧ c.Leaving

lemma Call.Idle.kept (h : c.Idle) : CallKept t c :=
  ⟨fun r hr => by simp [h.1] at hr, fun x hx => by simp [h.2.1] at hx, h.2.2⟩

/-- A statement that ends no request and finishes no step. -/
lemma WorldKept.quiet (hw : WorldKept w) (hk : Kept none t')
    (hl : Leaves none none (fun _ => False) w.toTables t')
    (hnext : ∀ c, next = some c → CallKept t' c ∧ ∀ r, c.holds = some r → ∀ x ∈ w.calls,
      x.2.holds = some r → x.1 = i) : StepKept w (w.went i t' next) :=
  hw.went hk hl (resumes_of_leaves hl)
    (fun _ _ _ => ⟨fun _ _ => ⟨by simp, by simp⟩, fun _ _ => id⟩) hnext

/-- The same of a call that goes on with nothing to wait for. -/
lemma WorldKept.harmlessCall (hw : WorldKept w) (hk : Kept none t')
    (hl : Leaves none none (fun _ => False) w.toTables t')
    (hnext : ∀ c, next = some c → c.Idle) : StepKept w (w.went i t' next) :=
  hw.quiet hk hl fun c hc => ⟨(hnext c hc).kept, fun r hr => by simp [(hnext c hc).1] at hr⟩

/-- A statement that changes nothing. -/
lemma WorldKept.reads (hw : WorldKept w) (hnext : ∀ c, next = some c → c.Idle) :
    StepKept w (w.went i w.toTables next) :=
  hw.harmlessCall hw.tables .refl hnext

/-- A statement that changes nothing, of a call that goes on towards its wait. -/
lemma WorldKept.carries (hw : WorldKept w) {c₀ c : Call} (hi : (i, c₀) ∈ w.calls)
    (hc : CallKept w.toTables c) (hh : ∀ r, c.holds = some r → c₀.holds = some r) :
    StepKept w (w.went i w.toTables (some c)) :=
  hw.quiet hw.tables .refl fun c' hc' => by
    cases hc'
    exact ⟨hc, fun r hr x hx hxr => hw.alone x hx (i, c₀) hi r hxr (hh r hr)⟩

lemma idle_otherwise (content : String) :
    (Call.tick run (otherwise reading run reply content)).Idle := by
  unfold otherwise
  split
  · next pending hp =>
    have he : pending.externalRequestId = none := by
      simp only [requestedDocument] at hp
      split at hp
      · cases hp
      · obtain ⟨_, -, hp⟩ := Option.bind_eq_some_iff.mp hp
        obtain ⟨_, -, hp⟩ := Option.bind_eq_some_iff.mp hp
        split at hp <;> cases hp
        rfl
    exact ⟨he, rfl, trivial⟩
  · split
    · exact ⟨rfl, rfl, by simp [Call.Leaving]⟩
    · exact ⟨rfl, rfl, trivial⟩

lemma idle_answered (document : Bool) (ai : AiReply) :
    (Call.tick run (answered document ai)).Idle := by
  unfold answered
  split
  · exact ⟨rfl, rfl, by simp [Call.Leaving]⟩
  · split
    · exact ⟨rfl, rfl, by simp [Call.Leaving]⟩
    · split <;> exact ⟨rfl, rfl, by simp [Call.Leaving]⟩

/-- The points at which a tick only reads. -/
def Point.Reads : Point → Prop
  | .context | .completedBrowse _ | .browseRequest _ _ | .completedOperationHistory _
  | .completedDocument _ | .completedRules _ => True
  | _ => False

lemma read_spec {q : Option Point}
    (h : processQueuedAgentRun reading run t reply point = some (t', q)) (hr : point.Reads) :
    t' = t ∧ ∀ c, q.map (Call.tick run) = some c → c.Idle := by
  have hidle : ∀ p, (Call.tick run p).Idle → ∀ c, (some p).map (Call.tick run) = some c → c.Idle := by
    rintro p hp c hc
    cases hc
    exact hp
  have hleave : ∀ status o, status ≠ .waitingTool → (Call.tick run (.leave status o)).Idle :=
    fun _ _ hs => ⟨rfl, rfl, hs⟩
  cases point with
  | context =>
    simp only [processQueuedAgentRun] at h
    split at h <;> cases h
    · exact ⟨rfl, hidle _ (hleave _ _ (by decide))⟩
    · exact ⟨rfl, hidle _ ⟨rfl, rfl, trivial⟩⟩
  | completedBrowse content =>
    simp only [processQueuedAgentRun] at h
    split at h <;> cases h <;> exact ⟨rfl, hidle _ ⟨rfl, rfl, trivial⟩⟩
  | browseRequest content requestId =>
    simp only [processQueuedAgentRun] at h
    split at h <;> cases h
    · exact ⟨rfl, hidle _ (hleave _ _ (by decide))⟩
    · exact ⟨rfl, hidle _ ⟨rfl, rfl, trivial⟩⟩
  | completedOperationHistory content =>
    simp only [processQueuedAgentRun] at h
    split at h <;> cases h
    · exact ⟨rfl, hidle _ (hleave _ _ (by decide))⟩
    · exact ⟨rfl, hidle _ ⟨rfl, rfl, trivial⟩⟩
  | completedDocument content =>
    simp only [processQueuedAgentRun] at h
    split at h
    · cases h
      exact ⟨rfl, hidle _ ⟨rfl, rfl, trivial⟩⟩
    · split at h <;> cases h <;> exact ⟨rfl, hidle _ ⟨rfl, rfl, trivial⟩⟩
  | completedRules content =>
    simp only [processQueuedAgentRun] at h
    split at h
    · cases h
      exact ⟨rfl, hidle _ (hleave _ _ (by decide))⟩
    · split at h <;> cases h
      · exact ⟨rfl, hidle _ ⟨rfl, rfl, trivial⟩⟩
      · exact ⟨rfl, hidle _ (idle_otherwise content)⟩
  | _ => exact hr.elim

/-- The request that the AI asks for is a new one, and waits for its answer. -/
lemma WorldKept.asks (hw : WorldKept w) {document : Bool}
    (ho : OrderlyCall reading w reply (.tick run (.ask document)))
    (h : withAiResult run w.toTables reply document = some (t', point)) :
    StepKept w (w.went i t' (some (.tick run point))) := by
  unfold withAiResult at h
  split at h
  · next q hai =>
    obtain ⟨⟨t₁, b⟩, hc, h⟩ := Option.bind_eq_some_iff.mp h
    cases h
    obtain ⟨rfl, -, hnew, hpresent⟩ := create_spec hc
    refine hw.quiet hw.tables.addBrowse leaves_addBrowse fun c hc' => ?_
    cases hc'
    cases document with
    | true => exact ⟨Call.Idle.kept ⟨rfl, rfl, by simp [Call.Leaving]⟩, fun r hr => (by cases hr)⟩
    | false =>
      have hunused : ∀ s ∈ w.steps, s.externalRequestId ≠ some b.id := by
        intro s hs he
        obtain ⟨x, hx, hid⟩ := hw.tables.known s hs b.id he
        exact hnew x hx hid
      refine ⟨⟨fun r hr => ?_, fun x hx => (by cases hx), trivial⟩, fun r hr x hx hxr => ?_⟩
      · cases hr
        refine ⟨⟨b, List.mem_append_right _ (List.mem_singleton_self b), rfl, ?_⟩, hunused⟩
        exact hpresent (ho q hai)
      · cases hr
        obtain ⟨y, hy, hid, -⟩ := ((hw.calls x hx).holds b.id hxr).1
        exact absurd hid (hnew y hy)
  · cases h
    exact hw.reads fun c hc => by
      cases hc
      exact idle_answered document _

/-- A tick that has found its step, or is to add one. -/
lemma WorldKept.selects (hw : WorldKept w) {pending : Pending} {n : ℕ}
    (hi : (i, .tick run (.selectStep pending n)) ∈ w.calls)
    (ho : OrderlyCall reading w reply (.tick run (.selectStep pending n)))
    (h : processQueuedAgentRun reading run w.toTables reply (.selectStep pending n) =
      some (t', some point)) : StepKept w (w.went i t' (some (.tick run point))) := by
  simp only [processQueuedAgentRun] at h
  split at h
  · next s hs =>
    cases h
    have hrun : s.runId = run.id := by
      have := List.find?_some hs
      simp only [Bool.and_eq_true, decide_eq_true_eq] at this
      exact this.1.1
    refine hw.carries hi ⟨fun r hr => (by cases hr), fun x hx => ?_, trivial⟩ fun r hr => by cases hr
    cases hx
    exact ⟨s, List.mem_of_find?_eq_some hs, rfl, hrun, ho s hs⟩
  · cases h
    exact hw.carries hi ⟨(hw.calls _ hi).holds, fun x hx => (by cases hx), trivial⟩ fun r hr => hr

/-- The step is added, and the run can wait for it. -/
lemma WorldKept.inserts (hw : WorldKept w) {pending : Pending} {n : ℕ} {o : Options}
    (hi : (i, .tick run (.insertStep pending n)) ∈ w.calls)
    (h : insertStep w.toTables (newStep reading run reply pending n) = some t') :
    StepKept w (w.went i t' (some (.tick run (.wait o reply.newId)))) := by
  have hc := hw.calls _ hi
  obtain ⟨hl, ha⟩ : Leaves none _ (fun _ => False) w.toTables t' ∧ _ := leaves_insertStep h rfl
  refine hw.went (hw.tables.insertStep h hc.holds) hl (resumes_of_leaves hl)
    (fun x hx hne => ⟨fun r hr => ⟨by simp, fun he => hne ?_⟩, fun _ _ => id⟩) fun c hc' => ?_
  · exact hw.alone x hx _ hi r hr he.symm
  · cases hc'
    refine ⟨⟨fun r hr => (by cases hr), fun x hx => ?_, trivial⟩, fun r hr => (by cases hr)⟩
    cases hx
    exact ha

/-- A run leaves its tick; it waits only for a step that can be answered. -/
lemma WorldKept.parts (hw : WorldKept w) {status : RunStatus} {o : Options}
    (h : transition w.toTables run.userId run.id status o = some t')
    (hwait : status = .waitingTool → ∃ s ∈ w.steps, s.runId = run.id ∧ s.status = .queued) :
    StepKept w (w.went i t' none) :=
  hw.harmlessCall (hw.tables.transition h hwait) (leaves_transition h) fun c hc => by cases hc

/-- **A tick loses no run**, statement by statement. -/
lemma WorldKept.tick (hw : WorldKept w) (hi : (i, .tick run point) ∈ w.calls)
    (ho : OrderlyCall reading w reply (.tick run point)) :
    StepKept w (w.advance reading i reply (.tick run point)) := by
  simp only [World.advance]
  cases hp : processQueuedAgentRun reading run w.toTables reply point with
  | none => exact hw.reads fun c hc => by cases hc
  | some res =>
    obtain ⟨t', next⟩ := res
    dsimp only
    cases point with
    | context | completedBrowse _ | browseRequest _ _ | completedOperationHistory _
    | completedDocument _ | completedRules _ =>
      obtain ⟨rfl, hidle⟩ := read_spec hp trivial
      exact hw.reads hidle
    | ask document =>
      simp only [processQueuedAgentRun] at hp
      obtain ⟨⟨t₁, q⟩, ha, hp⟩ := Option.map_eq_some_iff.mp hp
      cases hp
      exact hw.asks ho ha
    | selectRun pending =>
      simp only [processQueuedAgentRun] at hp
      split at hp
      · cases hp
      · split at hp
        · cases hp
        · cases hp
          exact hw.carries hi ⟨(hw.calls _ hi).holds, fun x hx => (by cases hx), trivial⟩
            fun r hr => hr
    | selectStep pending n =>
      cases next with
      | none =>
        simp only [processQueuedAgentRun] at hp
        split at hp <;> cases hp
      | some q => exact hw.selects hi ho hp
    | insertStep pending n =>
      simp only [processQueuedAgentRun] at hp
      obtain ⟨t₁, ha, hp⟩ := Option.map_eq_some_iff.mp hp
      cases hp
      exact hw.inserts hi ha
    | leave status o =>
      simp only [processQueuedAgentRun] at hp
      obtain ⟨t₁, ha, hp⟩ := Option.map_eq_some_iff.mp hp
      cases hp
      exact hw.parts ha fun hs => absurd hs (hw.calls _ hi).leaving
    | wait o stepId =>
      simp only [processQueuedAgentRun] at hp
      obtain ⟨t₁, ha, hp⟩ := Option.map_eq_some_iff.mp hp
      cases hp
      obtain ⟨s, hs, -, hrun, hq⟩ := (hw.calls _ hi).awaits _ rfl
      exact hw.parts ha fun _ => ⟨s, hs, hrun, hq⟩

/-! ### All steps -/

/-- What may be said of a call by its number. -/
lemma mem_of_call (h : w.call i = some c) : (i, c) ∈ w.calls := by
  obtain ⟨⟨j, x⟩, hx, rfl⟩ := Option.map_eq_some_iff.mp h
  have hj : j = i := by simpa using List.find?_some hx
  exact hj ▸ List.mem_of_find?_eq_some hx

/-- An operation that ends no request and finishes no step. -/
lemma WorldKept.harmless (hw : WorldKept w) (hk : Kept none t')
    (hl : Leaves none none (fun _ => False) w.toTables t') :
    StepKept w { w with toTables := t' } :=
  hw.change hk hl (resumes_of_leaves hl) fun _ _ => ⟨fun _ _ => by simp, fun _ _ => id⟩

lemma WorldKept.unchanged (hw : WorldKept w) : StepKept w w := hw.harmless hw.tables .refl

lemma WorldKept.starts (hw : WorldKept w) (hk : Kept none t')
    (hl : Leaves none none (fun _ => False) w.toTables t') (hc : c.Idle)
    (hs : w.start i t' c = some w') : StepKept w w' := by
  unfold World.start at hs
  split at hs <;> cases hs
  exact hw.harmlessCall hk hl fun _ h => Option.some.inj h ▸ hc

/-- **The answer of the desktop** wakes the run that waits for it. -/
lemma WorldKept.finish (hw : WorldKept w) {q : Browses.Finish}
    (ho : Orderly reading w (.finish q)) :
    StepKept w { w with toTables := FileBrowse.finish w.toTables q } := by
  rcases finish_cases w.toTables q with he | ⟨request, howned, hreq, hcase⟩
  · rw [he]
    exact hw.unchanged
  · obtain ⟨hu, hlate⟩ := ho request howned hreq
    have hfree := hw.free fun _ => hu
    rcases hcase with ⟨hexp, he⟩ | ⟨ready, code, he⟩
    · have hends := ends_timedOut_requested q.requestId
      have hl : Leaves _ none (fun _ => False) w.toTables _ := leaves_setBrowses hends
      rw [he]
      exact hw.change ((hw.tables.setBrowses hends).settle (hlate hexp)) hl
        (resumes_of_settled hl fun _ => hlate hexp) fun x hx => ⟨(hfree x hx).1, fun _ _ => id⟩
    · have hends := ends_finished q
      rw [he]
      exact hw.change (hw.tables.setBrowses hends).resume (leaves_wake hends)
        (resumes_resume hw.tables hends) hfree

/-- **The reader that times a request out** wakes the run that waits for it. -/
lemma WorldKept.getExpired (hw : WorldKept w) {userId : ℕ} {request : Browse}
    (ho : OrderlyCall reading w reply (.get userId request)) :
    StepKept w (w.went i (FileBrowse.getExpired w.toTables userId request) none) := by
  rcases getExpired_cases w.toTables userId request with he | he | ⟨hf, he⟩
  · rw [he]
    exact hw.reads fun c hc => by cases hc
  · rw [he]
    exact hw.harmlessCall (hw.tables.setBrowses (ends_cleared _)) (leaves_setBrowses (ends_cleared _))
      fun c hc => by cases hc
  · have hends := ends_timedOut_live request.id
    have hfree := hw.free (ho hf)
    have hl : Leaves (some request.id) none
        (fun k => ∃ s ∈ w.steps, s.id = k ∧ s.externalRequestId = some request.id) w.toTables
        (FileBrowse.getExpired w.toTables userId request) := by
      rw [he]
      exact leaves_wake hends
    rw [he] at hl ⊢
    exact hw.went (hw.tables.setBrowses hends).resume hl (resumes_resume hw.tables hends)
      (fun x hx _ => ⟨fun r hr => ⟨(hfree x hx).1 r hr, by simp⟩, (hfree x hx).2⟩)
      fun c hc => by cases hc

/-- **The worker** ends no request that a run waits for. -/
lemma WorldKept.expires (hw : WorldKept w) {requestId : ℕ} {rest : List ℕ}
    (ho : OrderlyCall reading w reply (.expire (requestId :: rest))) :
    StepKept w (w.went i (FileBrowse.expire w.toTables requestId) (some (.expire rest))) := by
  have hends := ends_timedOut_requested requestId
  have hl : Leaves _ none (fun _ => False) w.toTables _ := leaves_setBrowses hends
  have hfree := hw.free fun hreq => (ho hreq).1
  refine hw.went ?_ hl (resumes_of_settled hl fun hreq => (ho hreq).2)
    (fun x hx _ => ⟨fun r hr => ⟨(hfree x hx).1 r hr, by simp⟩, fun _ _ => id⟩) fun c hc => ?_
  · by_cases hreq : Requested w.toTables requestId
    · exact (hw.tables.setBrowses hends).settle (ho hreq).2
    · refine (hw.tables.setBrowses hends).settle fun s hs hsr hq => hreq ?_
      exact hw.tables.requested s hs hq requestId hsr (by simp)
  · cases hc
    exact ⟨Call.Idle.kept ⟨rfl, rfl, trivial⟩, fun r hr => by cases hr⟩

/-- **Every step keeps the world.** -/
theorem WorldKept.step {l : Label} (hw : WorldKept w) (ho : Orderly reading w l)
    (hs : World.step reading w l = some w') : StepKept w w' := by
  cases l with
  | time now =>
    cases hs
    have hk : Kept none { w.toTables with now := now } :=
      ⟨hw.tables.stepIds, hw.tables.external, hw.tables.known, hw.tables.requested,
        hw.tables.waiting⟩
    exact hw.harmless hk ⟨fun _ _ h => h, fun _ _ h => h, fun _ _ _ h => h⟩
  | begin q =>
    cases hs
    exact hw.harmless hw.tables.begin leaves_begin
  | answerClarification userId runId selected =>
    cases hs
    exact hw.harmless hw.tables.answerClarification leaves_answerClarification
  | completeTool q =>
    cases hs
    have hl : Leaves none none _ w.toTables (completeTool w.toTables q) := leaves_completeTool
    refine hw.change hw.tables.completeTool hl (resumes_of_leaves hl)
      fun x hx => ⟨fun _ _ => by simp, fun y hy => ?_⟩
    rintro ⟨hid, s, hs, hq⟩
    exact ho s hs hq x hx y.1 (hid ▸ hy)
  | create q =>
    cases hs
    cases hc : FileBrowse.create w.toTables q with
    | none => exact hw.unchanged
    | some res =>
      obtain ⟨t', b⟩ := res
      obtain ⟨rfl, -⟩ := create_spec hc
      exact hw.harmless hw.tables.addBrowse leaves_addBrowse
  | finish q =>
    cases hs
    exact hw.finish ho
  | get j q =>
    simp only [World.step] at hs
    split at hs
    · cases hs
      exact hw.unchanged
    · exact hw.starts hw.tables .refl (by exact ⟨rfl, rfl, trivial⟩) hs
  | tick j =>
    have hk := hw.tables.claimNext
    have hl : Leaves none none (fun _ => False) w.toTables _ := leaves_claimNext
    simp only [World.step] at hs
    split at hs
    · next t he =>
      cases hs
      rw [he] at hk hl
      exact hw.harmless hk hl
    · next t run he =>
      rw [he] at hk hl
      exact hw.starts hk hl (by exact ⟨rfl, rfl, by simp [Call.Leaving]⟩) hs
  | scheduleExpired j => exact hw.starts hw.tables .refl (by exact ⟨rfl, rfl, trivial⟩) hs
  | advance j reply =>
    obtain ⟨c, hc, rfl⟩ := Option.map_eq_some_iff.mp hs
    have ho := ho c hc
    cases c with
    | tick run point => exact hw.tick (mem_of_call hc) ho
    | get userId request => exact hw.getExpired ho
    | expire ids =>
      cases ids with
      | nil =>
        have hends := ends_ready w.now
        exact hw.harmlessCall (hw.tables.setBrowses hends) (leaves_setBrowses hends) fun c hc => by
          cases hc
          exact ⟨rfl, rfl, trivial⟩
      | cons requestId rest => exact hw.expires ho
    | clear =>
      exact hw.harmlessCall (hw.tables.setBrowses (ends_cleared _))
        (leaves_setBrowses (ends_cleared _)) fun c hc => by cases hc
  | abort j =>
    obtain ⟨_, -, rfl⟩ := Option.map_eq_some_iff.mp hs
    exact hw.reads fun c hc => by cases hc

lemma WorldKept.noneInVain (hw : WorldKept w) : NoneInVain w where
  waiting _ run hrun hs := by
    obtain ⟨s, hs, hid, hq⟩ := hw.tables.waiting run hrun hs
    exact ⟨s, hs, hid, hq, fun r hr => hw.tables.requested s hs hq r hr (by simp)⟩
  ended _ s hs r hr hn hq := hn (hw.tables.requested s hs hq r hr (by simp))

lemma worldKept_initial (rooms : List Server.Room) (devices : List Server.Device) :
    WorldKept (World.initial rooms devices) := by
  refine ⟨⟨List.nodup_nil, ?_, ?_, ?_, ?_⟩, ?_, ?_⟩ <;> simp [World.initial]

/-- Messages that ask for nothing in particular, and hashes that tell requests apart. -/
def plainReading : Reading where
  isOperationHistoryRequest _ := false
  isRuleListRequest _ := false
  isDocumentExtractionRequest _ := false
  documentPathFromMessage _ _ := none
  namedFolderFromMessage _ := none
  sameFolder _ _ := false
  rankDirectoryCandidates _ _ := []
  inputHash
    | .browse requestId => toString requestId
    | _ => ""

def listing : Browses.Create where
  userId := 1
  roomId := 1
  relativeDirectory := ""
  cursor := none
  query := none
  extensions := []
  limit := 200
  searchScope := "CURRENT_DIRECTORY"
  newId := 20
  presence := true

/-- The message is there, and the AI asks for a listing. -/
def plainReply (newId : ℕ) : Reply where
  content := some "What is in the folder?"
  rootAlias := none
  aiDocumentAnalysisConsent := false
  recentFiles := []
  knownFolders := []
  ai := .query (some listing)
  newId := newId

/-- A room with its device, both active. -/
def oneRoom : World := .initial [⟨1, 1, 1, true⟩] [⟨1, 1, true⟩]

def answer : Browses.Finish := ⟨1, 1, 20, .ready "[]" "1"⟩

/-- The desktop answers after the step has been added and before the run waits for it. -/
def answeredEarly : List Label :=
  [.begin ⟨1, 1, 1, 1, 10⟩, .tick 0] ++ List.replicate 5 (.advance 0 (plainReply 0)) ++
    [.advance 0 (plainReply 20), .advance 0 (plainReply 0), .advance 0 (plainReply 0),
      .advance 0 (plainReply 30), .finish answer, .advance 0 (plainReply 0)]

lemma answeredEarly_waits : (Machine.run (World.step plainReading) oneRoom answeredEarly).any
    (fun w => w.calls.isEmpty && w.runs.any (fun run => run.status = .waitingTool) &&
      w.steps.all fun s => s.status ≠ .queued) = true := by
  decide +kernel

end MouseKeeper.Chat
