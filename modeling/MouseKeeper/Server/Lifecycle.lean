import MouseKeeper.Server.Calls

/-!
The status of a command under all requests that write it.

Five transactions write the status, and only one of them asks `canTransition`. A command
moves forward, and stays where it ends, in the runs whose other writes find what they rely
on.
-/

namespace MouseKeeper.Server

open MouseKeeper.ReadCommitted

/-- What the writes that do not ask `canTransition` rely on: a proposal finds its command
still `ANALYZING` when it sets it, no report fails a command that is `EXECUTING`, and a
decision is claimed under one key. -/
def Undisturbed : Cond Request Db Lock Code Response := fun d c =>
  ClaimedOnce d c.request c.rest ∧ StatusKept d c.request c.rest

/-- The assertion about an open call. -/
def Assertion (d : Db) (c : Call Request Db Lock Code Response) : Prop :=
  Place True d c.held c.request c.change c.rest

theorem lifecycle_rules : Rules body Undisturbed (Orderly True) Assertion where
  start q _ := Place.start q
  stmt hd h hok hr := Place.advance hd h hok.1 (fun _ => hok.2) hr
  commit {d c a} hd h hr := by
    rw [Assertion, hr] at h
    rcases h.commit with ⟨hf, -⟩ | ⟨g, hg, -, hf⟩ <;> rw [Call.view, hf]
    · exact hd
    · exact hd.apply hg
  stable {d c c' a} hd h hr h' hdis := by
    rw [Assertion, hr] at h
    rcases h.commit with ⟨hf, -⟩ | ⟨g, hg, -, hf⟩ <;> rw [Call.view, hf]
    · exact h'
    · exact h'.stable hd hg hdis

/-- Commands with distinct identifiers, and nothing proposed yet. -/
structure Unproposed (d : Db) : Prop where
  commandIds : (d.commands.map (·.id)).Nodup
  proposals : d.proposals = []
  decisions : d.decisions = []
  executions : d.executions = []

lemma Unproposed.orderly {d : Db} (h : Unproposed d) (calm : Prop) : Orderly calm d where
  commandIds := h.commandIds
  proposalIds := by simp [h.proposals]
  proposalCommands := by simp [h.proposals]
  decisionIds := by simp [h.decisions]
  decisionProposals := by simp [h.decisions]
  executionIds := by simp [h.executions]
  executionProposals := by simp [h.executions]
  executionKeys := by simp [h.executions]
  decided := by simp [h.decisions]
  executed := by simp [h.executions]
  fits := by simp [h.proposals]

/-- **A finished command stays finished, and no command moves back**, in every run whose
unguarded writes find what they rely on. -/
theorem command_advances {d₀ : Db} (h₀ : Unproposed d₀)
    {s s' : State Request Db Lock Code Response}
    (hr : Runs body Undisturbed (.quiet d₀) s) (hr' : Runs body Undisturbed s s') :
    Advances s.db s'.db := by
  have hs := lifecycle_rules.run (Sound.quiet (h₀.orderly True)) hr
  refine lifecycle_rules.run_rel hs .refl .trans (fun hd h hrest => ?_) hr'
  rw [Assertion, hrest] at h
  rcases h.commit with ⟨hf, -⟩ | ⟨g, hg, -, hf⟩ <;> rw [Call.view, hf]
  · exact .refl _
  · exact hd.advances trivial hg

/-- One command that the device `9` is working on. -/
def sampleTables : Db where
  devices := [⟨9, 1, true⟩]
  rooms := [⟨3, 1, 9, true⟩]
  commands := [⟨5, 3, 9, .analyzing⟩]
  proposals := []
  proposalItems := []
  decisions := []
  executions := []

lemma unproposed_sample : Unproposed sampleTables := ⟨by decide, rfl, rfl, rfl⟩

/-- The tables after requests that are served one after the other. -/
def serve (d : Db) (l : List Request) : Db := l.foldl (fun d q => (body q).alone id d) d

/-- A proposal, its approval and its claim. -/
def sampleRequests : List Request :=
  [.createProposal ⟨1, 9, "p", 5, 3, none, 7, [11, 12]⟩,
    .createDecision ⟨1, 7, "k", .approve, [11, 12], 0, 21⟩,
    .createExecution ⟨1, "21", 7, 21, 9, 31⟩]

lemma runs_serve (d : Db) (l : List Request) :
    Runs body always (.quiet d) (.quiet (serve d l)) := by
  induction l generalizing d with
  | nil => exact .refl
  | cons q l ih =>
    exact (runs_alone_of body q d fun _ _ => trivial).trans (ih _)

/-- From the proposal to its claim. -/
theorem command_advances_sample :
    Advances (serve sampleTables (sampleRequests.take 1)) (serve sampleTables sampleRequests) ∧
      (serve sampleTables sampleRequests).commands = [⟨5, 3, 9, .executing⟩] := by
  have h₁ : Runs body Undisturbed (.quiet sampleTables)
      (.quiet (serve sampleTables (sampleRequests.take 1))) :=
    runs_alone_of body _ _ fun c hc => by
      rw [Undisturbed, hc]
      exact ⟨fun _ hq => (by cases hq), fun _ => by unfold StatusIs; decide⟩
  have h₂ : Runs body Undisturbed (.quiet (serve sampleTables (sampleRequests.take 1)))
      (.quiet (serve sampleTables (sampleRequests.take 2))) :=
    runs_alone_of body _ _ fun c hc => by
      rw [Undisturbed, hc]
      exact ⟨fun _ hq => (by cases hq), trivial⟩
  have h₃ : Runs body Undisturbed (.quiet (serve sampleTables (sampleRequests.take 2)))
      (.quiet (serve sampleTables sampleRequests)) :=
    runs_alone_of body _ _ fun c hc => by
      rw [Undisturbed, hc]
      refine ⟨fun q hq _ _ e he => ?_, trivial⟩
      have hn : (serve sampleTables (sampleRequests.take 2)).executions = [] := by
        decide +kernel
      rw [hn] at he
      cases he
  exact ⟨command_advances unproposed_sample h₁ (h₂.trans h₃), by decide +kernel⟩

/-- The command fails by a late status report while its execution is running, and then
succeeds by the result of the execution. -/
theorem not_command_advances : ¬ ∀ d₀, Unproposed d₀ → ∀ s s',
    Runs body always (.quiet d₀) s → Runs body always s s' → Advances s.db s'.db := by
  intro h
  let late : List Request := sampleRequests ++ [.updateCommand ⟨1, 9, 5, .failed⟩]
  let result : Request := .updateExecution ⟨1, 9, 31, "31", .succeeded, "done"⟩
  have h' := h sampleTables unproposed_sample _ _ (runs_serve _ late)
    (runs_serve (serve sampleTables late) [result])
  have hb : (serve sampleTables late).commands = [⟨5, 3, 9, .failed⟩] := by decide +kernel
  have ha : (serve (serve sampleTables late) [result]).commands = [⟨5, 3, 9, .succeeded⟩] := by
    decide +kernel
  rw [Advances, State.quiet, State.quiet, hb, ha] at h'
  cases h' with
  | cons hl _ => exact absurd (hl.final rfl) (by decide)

end MouseKeeper.Server
