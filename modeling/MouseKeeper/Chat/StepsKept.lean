import MouseKeeper.Chat.AgentTicks

/-!
What the operations on the runs of the agent keep.

A run that waits for a tool has a step that is queued, and a step that is queued is about a
request that can still be answered, apart from the moment between the end of a request and the
waking of its step. Besides, an operation leaves to the calls in progress what they are about to
wait for, unless it ends just that.
-/

namespace MouseKeeper.Chat

open Storage AgentRuns

/-- The browse request can still be answered. -/
def Requested (t : Tables) (requestId : ℕ) : Prop :=
  ∃ b ∈ t.browses, b.id = requestId ∧ b.status = .requested

/-- No step is about the request. -/
def Unused (t : Tables) (requestId : ℕ) : Prop :=
  ∀ s ∈ t.steps, s.externalRequestId ≠ some requestId

/-- Every step about the request is finished. -/
def Settled (t : Tables) (requestId : ℕ) : Prop :=
  ∀ s ∈ t.steps, s.externalRequestId = some requestId → s.status ≠ .queued

/-- The step can be answered, and wakes the run. -/
def Awaited (t : Tables) (runId stepId : ℕ) : Prop :=
  ∃ s ∈ t.steps, s.id = stepId ∧ s.runId = runId ∧ s.status = .queued

/-- As a request ends, its step is finished and the run that waits for it is queued again. -/
def Resumes (t t' : Tables) : Prop :=
  ∀ s ∈ t.steps, s.status = .queued → ∀ r, s.externalRequestId = some r → Requested t r →
    ¬ Requested t' r → (∃ s' ∈ t'.steps, s'.id = s.id ∧ s'.status ≠ .queued) ∧
      ∀ run ∈ t.runs, run.id = s.runId → run.status = .waitingTool →
        ∃ run' ∈ t'.runs, run'.id = run.id ∧ run'.status = .queued

/-! ### What the steps keep -/

/-- What holds of the tables, with the steps about one request left out. -/
structure Kept (but : Option ℕ) (t : Tables) : Prop where
  stepIds : (t.steps.map (·.id)).Nodup
  external : ∀ s ∈ t.steps, ∀ s' ∈ t.steps, ∀ r, s.externalRequestId = some r →
    s'.externalRequestId = some r → s.id = s'.id
  known : ∀ s ∈ t.steps, ∀ r, s.externalRequestId = some r → ∃ b ∈ t.browses, b.id = r
  requested : ∀ s ∈ t.steps, s.status = .queued → ∀ r, s.externalRequestId = some r →
    some r ≠ but → Requested t r
  waiting : ∀ run ∈ t.runs, run.status = .waitingTool → ∃ s ∈ t.steps,
    s.runId = run.id ∧ s.status = .queued

/-- What an operation leaves to the calls: it ends one request, uses one, and finishes some
steps at most. -/
structure Leaves (ended used : Option ℕ) (finished : ℕ → Prop) (t t' : Tables) : Prop where
  requested : ∀ r, some r ≠ ended → Requested t r → Requested t' r
  unused : ∀ r, some r ≠ used → Unused t r → Unused t' r
  awaited : ∀ runId stepId, ¬ finished stepId → Awaited t runId stepId → Awaited t' runId stepId

variable {t t' t'' : Tables} {but ended used : Option ℕ} {finished : ℕ → Prop} {c : Call}

lemma Leaves.refl : Leaves ended used finished t t :=
  ⟨fun _ _ h => h, fun _ _ h => h, fun _ _ _ h => h⟩

lemma Leaves.trans (h : Leaves ended used finished t t') (h' : Leaves ended used finished t' t'') :
    Leaves ended used finished t t'' where
  requested r hr hq := h'.requested r hr (h.requested r hr hq)
  unused r hr hq := h'.unused r hr (h.unused r hr hq)
  awaited runId stepId hne ha := h'.awaited runId stepId hne (h.awaited runId stepId hne ha)

lemma Leaves.mono {finished' : ℕ → Prop} (h : Leaves ended used finished t t')
    (hf : ∀ k, finished k → finished' k) : Leaves ended used finished' t t' :=
  ⟨h.requested, h.unused, fun runId stepId hne => h.awaited runId stepId (mt (hf stepId) hne)⟩

/-! ### Runs -/

/-- A change of the runs alone. -/
lemma Kept.runs {runs : List AgentRun} (h : Kept but t)
    (hw : ∀ run ∈ runs, run.status = .waitingTool →
      ∃ s ∈ t.steps, s.runId = run.id ∧ s.status = .queued) : Kept but { t with runs := runs } :=
  ⟨h.stepIds, h.external, h.known, h.requested, hw⟩

lemma leaves_runs {runs : List AgentRun} : Leaves ended used finished t { t with runs := runs } :=
  ⟨fun _ _ h => h, fun _ _ h => h, fun _ _ _ h => h⟩

lemma Kept.setRuns {cond : AgentRun → Bool} {set : AgentRun → AgentRun} (h : Kept but t)
    (hset : ∀ run ∈ t.runs, cond run = true → (set run).status = .waitingTool →
      ∃ s ∈ t.steps, s.runId = (set run).id ∧ s.status = .queued) : Kept but (t.setRuns cond set) := by
  refine h.runs fun run hr hw => ?_
  obtain ⟨run₀, h₀, rfl⟩ := List.mem_map.mp hr
  split at hw
  · next hc =>
    rw [if_pos hc]
    exact hset run₀ h₀ hc hw
  · next hc =>
    rw [if_neg hc]
    exact h.waiting run₀ h₀ hw

lemma Kept.begin {q : Begin} (h : Kept but t) : Kept but (begin t q) := by
  unfold AgentRuns.begin
  split
  · exact h
  · refine h.runs fun run hr hw => ?_
    rcases List.mem_append.mp hr with hr | hr
    · exact h.waiting run hr hw
    · rw [List.mem_singleton.mp hr] at hw
      cases hw

lemma Kept.sweep (h : Kept but t) : Kept but (sweep t) :=
  (h.setRuns fun _ _ _ hw => by cases hw).setRuns fun _ _ _ hw => by cases hw

lemma Kept.claimNext (h : Kept but t) : Kept but (claimNext t).1 := by
  unfold AgentRuns.claimNext
  split
  · exact h.sweep
  · exact h.sweep.setRuns fun _ _ _ hw => by cases hw

lemma Kept.answerClarification {userId runId : ℕ} {selected : String} (h : Kept but t) :
    Kept but (answerClarification t userId runId selected) := by
  unfold AgentRuns.answerClarification
  split
  · exact h
  · dsimp only
    split
    · exact h
    · exact h.setRuns fun _ _ _ hw => by cases hw

lemma leaves_begin {q : Begin} : Leaves ended used finished t (begin t q) := by
  unfold AgentRuns.begin
  split
  · exact .refl
  · exact leaves_runs

lemma leaves_claimNext : Leaves ended used finished t (claimNext t).1 := by
  unfold AgentRuns.claimNext
  split <;> exact leaves_runs

lemma leaves_answerClarification {userId runId : ℕ} {selected : String} :
    Leaves ended used finished t (answerClarification t userId runId selected) := by
  unfold AgentRuns.answerClarification
  split
  · exact .refl
  · dsimp only
    split
    · exact .refl
    · exact leaves_runs

/-- A run may wait if one of its steps can be answered. -/
lemma Kept.transition {userId runId : ℕ} {status : RunStatus} {o : Options} (h : Kept but t)
    (ht : transition t userId runId status o = some t')
    (hw : status = .waitingTool → ∃ s ∈ t.steps, s.runId = runId ∧ s.status = .queued) :
    Kept but t' := by
  unfold AgentRuns.transition at ht
  dsimp only at ht
  split at ht
  · cases ht
    refine h.setRuns fun run _ hc hs => ?_
    rw [Bool.and_eq_true, decide_eq_true_eq] at hc
    obtain ⟨s, hs, hrun, hq⟩ := hw hs
    exact ⟨s, hs, hrun.trans hc.1.symm, hq⟩
  · cases ht

lemma leaves_transition {userId runId : ℕ} {status : RunStatus} {o : Options}
    (ht : transition t userId runId status o = some t') : Leaves ended used finished t t' := by
  unfold AgentRuns.transition at ht
  dsimp only at ht
  split at ht
  · cases ht
    exact leaves_runs
  · cases ht

/-! ### Steps -/

/-- The steps about a request that is settled need no exception. -/
lemma Kept.settle {r : ℕ} (h : Kept (some r) t) (hs : Settled t r) : Kept none t where
  stepIds := h.stepIds
  external := h.external
  known := h.known
  requested s hmem hq r' hr' _ := by
    refine h.requested s hmem hq r' hr' fun he => ?_
    cases he
    exact hs s hmem hr' hq
  waiting := h.waiting

/-- The status of a step that is finished. -/
lemma mem_finishStep {stepId : ℕ} {ok : Bool} {code result : Option String} {s : AgentStep}
    (h : s ∈ (finishStep t stepId ok code result).steps) : ∃ s₀ ∈ t.steps, s.id = s₀.id ∧
      s.runId = s₀.runId ∧ s.externalRequestId = s₀.externalRequestId ∧
      (s₀.id = stepId → s.status ≠ .queued) ∧ (s₀.id ≠ stepId → s = s₀) := by
  obtain ⟨s₀, h₀, rfl⟩ := List.mem_map.mp h
  refine ⟨s₀, h₀, ?_⟩
  split
  · next hc =>
    refine ⟨rfl, rfl, rfl, fun _ => ?_, fun hne => absurd (of_decide_eq_true hc) hne⟩
    cases ok <;> simp
  · next hc => exact ⟨rfl, rfl, rfl, fun he => absurd (decide_eq_true he) hc, fun _ => rfl⟩

lemma mem_finishStep_of_ne {stepId : ℕ} {ok : Bool} {code result : Option String} {s : AgentStep}
    (h : s ∈ t.steps) (hne : s.id ≠ stepId) : s ∈ (finishStep t stepId ok code result).steps :=
  List.mem_map.mpr ⟨s, h, if_neg (by simpa using hne)⟩

/-- A step is finished, and its run goes on. -/
lemma Kept.finishStep {s : AgentStep} {ok : Bool} {code result : Option String} (h : Kept but t)
    (hs : s ∈ t.steps) : Kept but (requeue (finishStep t s.id ok code result) s.runId) where
  stepIds := by
    have hids : (AgentRuns.finishStep t s.id ok code result).steps.map (·.id) =
        t.steps.map (·.id) := by
      simp only [AgentRuns.finishStep, Tables.setSteps, List.map_map]
      refine List.map_congr_left fun x _ => ?_
      simp only [Function.comp_apply]
      split <;> rfl
    exact hids ▸ h.stepIds
  external x hx y hy r hxr hyr := by
    obtain ⟨x₀, hx₀, hxid, -, hxe, -⟩ := mem_finishStep hx
    obtain ⟨y₀, hy₀, hyid, -, hye, -⟩ := mem_finishStep hy
    rw [hxid, hyid]
    exact h.external x₀ hx₀ y₀ hy₀ r (hxe ▸ hxr) (hye ▸ hyr)
  known x hx r hxr := by
    obtain ⟨x₀, hx₀, -, -, hxe, -⟩ := mem_finishStep hx
    exact h.known x₀ hx₀ r (hxe ▸ hxr)
  requested x hx hq r hxr hne := by
    obtain ⟨x₀, hx₀, -, -, -, hfin, hsame⟩ := mem_finishStep hx
    by_cases hid : x₀.id = s.id
    · exact absurd hq (hfin hid)
    · rw [hsame hid] at hq hxr
      exact h.requested x₀ hx₀ hq r hxr hne
  waiting run hrun hw := by
    obtain ⟨run₀, h₀, rfl⟩ := List.mem_map.mp hrun
    split at hw
    · cases hw
    · next hc =>
      rw [if_neg hc]
      obtain ⟨x, hx, hxrun, hq⟩ := h.waiting run₀ h₀ hw
      refine ⟨x, mem_finishStep_of_ne hx fun hid => hc ?_, hxrun, hq⟩
      -- The step that is finished belongs to another run.
      rw [List.inj_on_of_nodup_map h.stepIds hx hs hid] at hxrun
      simp [hxrun, hw]

lemma leaves_finishStep {runId stepId : ℕ} {ok : Bool} {code result : Option String} :
    Leaves ended used (· = stepId) t (requeue (finishStep t stepId ok code result) runId) where
  requested _ _ hq := hq
  unused r _ hu x hx := by
    obtain ⟨x₀, hx₀, -, -, hxe, -⟩ := mem_finishStep hx
    exact hxe ▸ hu x₀ hx₀
  awaited _ _ hne := by
    rintro ⟨x, hx, rfl, hrun, hq⟩
    exact ⟨x, mem_finishStep_of_ne hx hne, rfl, hrun, hq⟩

lemma Kept.completeTool {q : CompleteTool} (h : Kept but t) : Kept but (completeTool t q) := by
  unfold AgentRuns.completeTool
  split
  · exact h
  · next s hs =>
    split
    · exact h
    · have hid : s.id = q.stepId := by
        have := List.find?_some hs
        rw [Bool.and_eq_true, decide_eq_true_eq] at this
        exact this.1
      rw [← hid]
      exact h.finishStep (List.mem_of_find?_eq_some hs)

lemma leaves_completeTool {q : CompleteTool} : Leaves ended used
    (fun k => k = q.stepId ∧ ∃ s, toolOf t q = some s ∧ s.status = .queued) t
    (completeTool t q) := by
  unfold AgentRuns.completeTool
  split
  · exact .refl
  · next s hs =>
    split
    · exact .refl
    · next hq =>
      exact leaves_finishStep.mono fun _ he => ⟨he, s, hs, not_not.mp hq⟩

/-- A new step is about a request that can be answered and has none yet. -/
lemma Kept.insertStep {s : AgentStep} (h : Kept but t) (hi : insertStep t s = some t')
    (he : ∀ r, s.externalRequestId = some r → Requested t r ∧ Unused t r) :
    Kept but t' := by
  unfold AgentRuns.insertStep at hi
  split at hi
  · cases hi
  · next hc =>
    cases hi
    have hnew : s.id ∉ t.steps.map (·.id) := by
      intro hm
      obtain ⟨x, hx, hid⟩ := List.mem_map.mp hm
      exact hc (List.any_eq_true.mpr ⟨x, hx, by simp [hid]⟩)
    have hsteps : Kept but { t with steps := t.steps ++ [s] } := by
      refine ⟨?_, fun x hx y hy r hxr hyr => ?_, fun x hx r hxr => ?_, fun x hx hxq r hxr hne => ?_,
        fun run hrun hw => ?_⟩
      · rw [List.map_append, List.map_singleton]
        refine List.Nodup.append h.stepIds (List.nodup_singleton _) fun i hi hm => ?_
        rw [List.mem_singleton.mp hm] at hi
        exact hnew hi
      · rcases List.mem_append.mp hx with hx | hx <;> rcases List.mem_append.mp hy with hy | hy
        · exact h.external x hx y hy r hxr hyr
        · rw [List.mem_singleton.mp hy] at hyr
          exact absurd hxr ((he r hyr).2 x hx)
        · rw [List.mem_singleton.mp hx] at hxr
          exact absurd hyr ((he r hxr).2 y hy)
        · rw [List.mem_singleton.mp hx, List.mem_singleton.mp hy]
      · rcases List.mem_append.mp hx with hx | hx
        · exact h.known x hx r hxr
        · rw [List.mem_singleton.mp hx] at hxr
          obtain ⟨b, hb, hid, -⟩ := (he r hxr).1
          exact ⟨b, hb, hid⟩
      · rcases List.mem_append.mp hx with hx | hx
        · exact h.requested x hx hxq r hxr hne
        · rw [List.mem_singleton.mp hx] at hxr
          exact (he r hxr).1
      · obtain ⟨x, hx, hxrun, hxq⟩ := h.waiting run hrun hw
        exact ⟨x, List.mem_append_left _ hx, hxrun, hxq⟩
    exact hsteps.setRuns fun run hrun _ hw => hsteps.waiting run hrun hw

lemma leaves_insertStep {s : AgentStep} (hi : insertStep t s = some t')
    (hq : s.status = .queued) :
    Leaves ended s.externalRequestId finished t t' ∧ Awaited t' s.runId s.id := by
  unfold AgentRuns.insertStep at hi
  split at hi
  · cases hi
  · cases hi
    refine ⟨⟨fun _ _ hr => hr, fun r hne hu x hx => ?_, fun runId stepId _ => ?_⟩, ?_⟩
    · rcases List.mem_append.mp hx with hx | hx
      · exact hu x hx
      · rw [List.mem_singleton.mp hx]
        exact fun he => hne he.symm
    · rintro ⟨x, hx, hid, hrun, hxq⟩
      exact ⟨x, List.mem_append_left _ hx, hid, hrun, hxq⟩
    · exact ⟨s, List.mem_append_right _ (List.mem_singleton_self s), rfl, rfl, hq⟩

/-! ### Browse requests -/

/-- A new request takes a free identifier. -/
lemma Kept.addBrowse {b : Browse} (h : Kept but t) :
    Kept but { t with browses := t.browses ++ [b] } where
  stepIds := h.stepIds
  external := h.external
  known s hs r hr := by
    obtain ⟨x, hx, hid⟩ := h.known s hs r hr
    exact ⟨x, List.mem_append_left _ hx, hid⟩
  requested s hs hq r hr hne := by
    obtain ⟨x, hx, hid, hxq⟩ := h.requested s hs hq r hr hne
    exact ⟨x, List.mem_append_left _ hx, hid, hxq⟩
  waiting := h.waiting

/-- What a request that comes in leaves, and what it is. -/
lemma create_spec {q : Browses.Create} {b : Browse} (h : FileBrowse.create t q = some (t', b)) :
    t' = { t with browses := t.browses ++ [b] } ∧ b.id = q.newId ∧
      (∀ x ∈ t.browses, x.id ≠ b.id) ∧ (q.presence = true → b.status = .requested) := by
  simp only [FileBrowse.create, Option.bind_eq_bind, Option.bind_eq_some_iff] at h
  obtain ⟨_, -, _, -, room, -, h⟩ := h
  split at h
  · cases h
  · next hn =>
    cases h
    refine ⟨rfl, rfl, fun x hx hid => hn (List.any_eq_true.mpr ⟨x, hx, decide_eq_true hid⟩),
      fun hp => ?_⟩
    simp [Browses.newBrowse, hp]

lemma leaves_addBrowse {b : Browse} :
    Leaves ended used finished t { t with browses := t.browses ++ [b] } where
  requested _ _ := fun ⟨x, hx, hid, hq⟩ => ⟨x, List.mem_append_left _ hx, hid, hq⟩
  unused _ _ hu := hu
  awaited _ _ _ ha := ha

/-- A change of requests that ends no other than the given one. -/
def Ends (ended : Option ℕ) (cond : Browse → Bool) (set : Browse → Browse) : Prop :=
  ∀ b, (set b).id = b.id ∧ (cond b = true → b.status = .requested → some b.id ≠ ended →
    (set b).status = .requested)

variable {cond : Browse → Bool} {set : Browse → Browse}

lemma leaves_setBrowses (he : Ends ended cond set) :
    Leaves ended used finished t (t.setBrowses cond set) where
  requested := by
    rintro r hne ⟨b, hb, rfl, hq⟩
    refine ⟨_, List.mem_map.mpr ⟨b, hb, rfl⟩, ?_, ?_⟩ <;> split
    · exact (he b).1
    · rfl
    · next hc => exact (he b).2 hc hq hne
    · exact hq
  unused _ _ hu := hu
  awaited _ _ _ ha := ha

lemma Kept.setBrowses (h : Kept none t) (he : Ends ended cond set) :
    Kept ended (t.setBrowses cond set) where
  stepIds := h.stepIds
  external := h.external
  known s hs r hr := by
    obtain ⟨b, hb, rfl⟩ := h.known s hs r hr
    refine ⟨_, List.mem_map.mpr ⟨b, hb, rfl⟩, ?_⟩
    split
    · exact (he b).1
    · rfl
  requested s hs hq r hr hne := by
    have hl : Leaves ended none (fun _ => True) t (t.setBrowses cond set) := leaves_setBrowses he
    exact hl.requested r hne (h.requested s hs hq r hr (by simp))
  waiting := h.waiting

lemma ends_timedOut_requested (r : ℕ) :
    Ends (some r) (FileBrowse.isRequested r) Browses.timedOut := by
  refine fun b => ⟨rfl, fun hc _ hne => ?_⟩
  rw [FileBrowse.isRequested, Bool.and_eq_true, decide_eq_true_eq] at hc
  exact absurd (congrArg some hc.1) hne

lemma ends_finished (q : Browses.Finish) :
    Ends (some q.requestId) (FileBrowse.isRequested q.requestId) (Browses.finished q) := by
  refine fun b => ⟨by unfold Browses.finished; split <;> rfl, fun hc _ hne => ?_⟩
  rw [FileBrowse.isRequested, Bool.and_eq_true, decide_eq_true_eq] at hc
  exact absurd (congrArg some hc.1) hne

lemma ends_timedOut_live (r : ℕ) : Ends (some r) (FileBrowse.isLive r) Browses.timedOut := by
  refine fun b => ⟨rfl, fun hc _ hne => ?_⟩
  rw [FileBrowse.isLive, Bool.and_eq_true, decide_eq_true_eq] at hc
  exact absurd (congrArg some hc.1) hne

/-- A change that clears the results of requests ends none of them. -/
lemma ends_cleared (cond : Browse → Bool) : Ends none cond Browses.cleared :=
  fun _ => ⟨rfl, fun _ hq _ => hq⟩

lemma ends_ready (now : ℕ) : Ends none (fun b => decide (b.expiresAt ≤ now) &&
    decide (b.status = .ready)) Browses.timedOut := by
  refine fun b => ⟨rfl, fun hc hq _ => ?_⟩
  rw [Bool.and_eq_true, decide_eq_true_eq, decide_eq_true_eq, hq] at hc
  cases hc.2

/-! ### Waking a run -/

variable {r : ℕ} {ready : Bool} {code : Option String}

/-- The step that is woken is the only one about the request. -/
lemma Kept.find_step {s x : AgentStep} (h : Kept but t)
    (hf : (t.steps.find? fun s => s.externalRequestId = some r) = some s) (hx : x ∈ t.steps)
    (hxr : x.externalRequestId = some r) : x = s := by
  have hs := List.mem_of_find?_eq_some hf
  have hsr : s.externalRequestId = some r := by simpa using List.find?_some hf
  exact List.inj_on_of_nodup_map h.stepIds hx hs (h.external x hx s hs r hxr hsr)

/-- **The step of a request that has ended is finished, and its run goes on.** -/
lemma Kept.resume (h : Kept (some r) t) :
    Kept none (FileBrowse.resumeAgentRunForBrowse t r ready code) := by
  unfold FileBrowse.resumeAgentRunForBrowse
  split
  · next hn =>
    refine h.settle fun s hs hsr => ?_
    simpa [hsr] using List.find?_eq_none.mp hn s hs
  · next s hs =>
    split
    · next hq => exact h.settle fun x hx hxr => h.find_step hs hx hxr ▸ hq
    · refine (h.finishStep (List.mem_of_find?_eq_some hs)).settle fun x hx hxr => ?_
      obtain ⟨x₀, hx₀, -, -, hxe, hfin, -⟩ := mem_finishStep hx
      exact hfin (congrArg AgentStep.id (h.find_step hs hx₀ (hxe ▸ hxr)))

lemma leaves_resume : Leaves ended used
    (fun k => ∃ s ∈ t.steps, s.id = k ∧ s.externalRequestId = some r) t
    (FileBrowse.resumeAgentRunForBrowse t r ready code) := by
  unfold FileBrowse.resumeAgentRunForBrowse
  split
  · exact .refl
  · next s hs =>
    split
    · exact .refl
    · exact leaves_finishStep.mono fun _ he =>
        ⟨s, List.mem_of_find?_eq_some hs, he.symm, by simpa using List.find?_some hs⟩

/-- The step that waited is finished, and so is the wait of its run. -/
lemma Kept.woken (h : Kept (some r) t) {s : AgentStep} (hs : s ∈ t.steps)
    (hq : s.status = .queued) (hr : s.externalRequestId = some r) :
    (∃ s' ∈ (FileBrowse.resumeAgentRunForBrowse t r ready code).steps, s'.id = s.id ∧
      s'.status ≠ .queued) ∧ ∀ run ∈ t.runs, run.id = s.runId → run.status = .waitingTool →
        ∃ run' ∈ (FileBrowse.resumeAgentRunForBrowse t r ready code).runs, run'.id = run.id ∧
          run'.status = .queued := by
  have hf : (t.steps.find? fun s => s.externalRequestId = some r) = some s := by
    cases hfind : t.steps.find? fun s => s.externalRequestId = some r with
    | none => exact absurd hr (by simpa using List.find?_eq_none.mp hfind s hs)
    | some x => rw [h.find_step hfind hs hr]
  have he : FileBrowse.resumeAgentRunForBrowse t r ready code = requeue (AgentRuns.finishStep t s.id
      ready code (some (if ready then "READY" else "FAILED"))) s.runId := by
    unfold FileBrowse.resumeAgentRunForBrowse
    rw [hf]
    exact if_neg (not_not.mpr hq)
  rw [he]
  refine ⟨⟨_, List.mem_map.mpr ⟨s, hs, rfl⟩, ?_⟩, fun run hrun hid hw => ?_⟩
  · rw [if_pos (by simp)]
    exact ⟨rfl, by cases ready <;> simp⟩
  · refine ⟨_, List.mem_map.mpr ⟨run, hrun, rfl⟩, ?_⟩
    rw [if_pos (by simp [hid, hw])]
    exact ⟨rfl, rfl⟩

/-! ### Resumption -/

lemma resumes_of_leaves (h : Leaves none used finished t t') : Resumes t t' :=
  fun _ _ _ r _ hreq hn => absurd (h.requested r (by simp) hreq) hn

lemma resumes_of_settled (h : Leaves (some r) used finished t t')
    (hs : Requested t r → Settled t r) : Resumes t t' := by
  intro s hmem hq r' hr' hreq hn
  by_cases he : r' = r
  · subst he
    exact absurd hq (hs hreq s hmem hr')
  · exact absurd (h.requested r' (fun hc => he (Option.some.inj hc)) hreq) hn

/-- The request ends as the requests are changed, and then its step is woken. -/
lemma resumes_resume (h : Kept none t) (he : Ends (some r) cond set) : Resumes t
    (FileBrowse.resumeAgentRunForBrowse (t.setBrowses cond set) r ready code) := by
  intro s hmem hq r' hr' hreq hn
  by_cases heq : r' = r
  · subst heq
    exact (h.setBrowses he).woken hmem hq hr'
  · have hset : Leaves (some r) none (fun _ => True) t (t.setBrowses cond set) :=
      leaves_setBrowses he
    have hreq := hset.requested r' (fun hc => heq (Option.some.inj hc)) hreq
    have hl : Leaves none none _ (t.setBrowses cond set)
      (FileBrowse.resumeAgentRunForBrowse (t.setBrowses cond set) r ready code) := leaves_resume
    exact absurd (hl.requested r' (by simp) hreq) hn

/-- What a change of requests and the waking of a step leave to the calls. -/
lemma leaves_wake (he : Ends ended cond set) : Leaves ended used
    (fun k => ∃ s ∈ t.steps, s.id = k ∧ s.externalRequestId = some r) t
    (FileBrowse.resumeAgentRunForBrowse (t.setBrowses cond set) r ready code) := by
  have h : Leaves ended used (fun k => ∃ s ∈ t.steps, s.id = k ∧ s.externalRequestId = some r)
      (t.setBrowses cond set)
      (FileBrowse.resumeAgentRunForBrowse (t.setBrowses cond set) r ready code) :=
    leaves_resume (t := t.setBrowses cond set)
  exact (leaves_setBrowses he).trans h

/-! ### The operations, case by case -/

lemma any_isRequested {t : Tables} :
    t.browses.any (FileBrowse.isRequested r) = true ↔ Requested t r := by
  simp [Requested, FileBrowse.isRequested, List.any_eq_true]

lemma finish_cases (t : Tables) (q : Browses.Finish) : FileBrowse.finish t q = t ∨
    ∃ request, FileBrowse.owned t q = some request ∧ Requested t q.requestId ∧
      (request.expiresAt ≤ t.now ∧ FileBrowse.finish t q =
        t.setBrowses (FileBrowse.isRequested q.requestId) Browses.timedOut ∨
      ∃ ready code, FileBrowse.finish t q = FileBrowse.resumeAgentRunForBrowse
        (t.setBrowses (FileBrowse.isRequested q.requestId) (Browses.finished q)) q.requestId ready
          code) := by
  cases ho : FileBrowse.owned t q with
  | none => exact .inl (by simp only [FileBrowse.finish, ho])
  | some request =>
    by_cases hreq : t.browses.any (FileBrowse.isRequested q.requestId) = true
    · refine .inr ⟨request, rfl, any_isRequested.mp hreq, ?_⟩
      by_cases hlate : request.expiresAt ≤ t.now
      · exact .inl ⟨hlate, by simp [FileBrowse.finish, ho, hreq, hlate]⟩
      · refine .inr ?_
        cases hout : q.outcome with
        | ready page generation =>
          exact ⟨true, none, by simp [FileBrowse.finish, ho, hreq, hlate, hout]⟩
        | failed code =>
          exact ⟨false, some (FileBrowse.failureText code), by
            simp [FileBrowse.finish, ho, hreq, hlate, hout]⟩
    · exact .inl (by simp [FileBrowse.finish, ho, hreq])

lemma getExpired_cases (t : Tables) (userId : ℕ) (request : Browse) :
    FileBrowse.getExpired t userId request = t ∨
    (FileBrowse.getExpired t userId request =
      t.setBrowses (fun b => b.id = request.id) Browses.cleared) ∨
    request.status ≠ .failed ∧ FileBrowse.getExpired t userId request =
      FileBrowse.resumeAgentRunForBrowse
        (t.setBrowses (FileBrowse.isLive request.id) Browses.timedOut) request.id false
          (some (FileBrowse.failureText .timedOut)) := by
  unfold FileBrowse.getExpired
  split
  · exact .inl rfl
  · split
    · exact .inr (.inl rfl)
    · next hf =>
      split
      · exact .inl rfl
      · exact .inr (.inr ⟨hf, rfl⟩)

end MouseKeeper.Chat
