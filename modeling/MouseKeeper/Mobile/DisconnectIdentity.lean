import MouseKeeper.Mobile.StaleSummaries

/-!
A disconnect keeps its identity.

Of a run it is observed with which key an aggregate was first asked to be disconnected since it
last came into the state, and which requests are under way. A request whose answer is no longer
awaited may still be.
-/

namespace MouseKeeper.Mobile.ConnectionGate

open MouseKeeper.Machine

/-! ### What a call has not brought to its end -/

/-- The disconnect that the summary is read for. -/
def Purpose.disconnect : Purpose → Option DisconnectOperation
  | .confirm o _ _ _ => some o
  | .load | .reconcile | .claim _ => none

/-- The disconnect of the call. One that has been confirmed is at its end. -/
def Task.disconnect : Task → Option DisconnectOperation
  | .reading p _ _ | .queued p | .pausing p => p.disconnect
  | .returned p applied _ _ _ => if applied = some true then none else p.disconnect
  | .requesting o _ | .removing o | .removeFailed o => some o
  | .claiming | .finished => none

/-- The failure of the disconnect is shown after this attempt. -/
def Purpose.exhausted : Purpose → Option DisconnectOperation
  | .confirm o _ attempt _ => if attempt < 4 then none else some o
  | .load | .reconcile | .claim _ => none

/-- A request is made for the aggregate. -/
def ConnectionGateData.asks (d : ConnectionGateData) (g : Aggregate) (retry : Bool) : Bool :=
  match d.operation g with
  | none => true
  | some o => o.phase = .failed && retry

namespace World

variable (w : World)

def disconnectOf (i : ℕ) : Option DisconnectOperation := (w.tasks[i]?).bind Task.disconnect

/-- The key and the phase of the operation that is shown. -/
def showing (g : Aggregate) : Option (ℕ × DisconnectPhase) :=
  (w.data.bind (·.operation g)).map fun o => (o.idempotencyKey, o.phase)

/-- The disconnect whose failure a step shows. -/
def records : Action → Option DisconnectOperation
  | .disconnected i (some error) =>
    match w.tasks[i]? with
    | some (.requesting o _) => if error.ambiguous then none else some o
    | _ => none
  | .timeout i =>
    match w.tasks[i]? with
    | some (.reading p _ _) => p.exhausted
    | _ => none
  | .deadline i =>
    match w.tasks[i]? with
    | some (.pausing p) => p.disconnect
    | _ => none
  | .resume i =>
    match w.tasks[i]? with
    | some (.removeFailed o) => some o
    | some (.returned p applied _ _ _) => if applied = some true then none else p.exhausted
    | some (.reading p _ request) =>
      match (w.requests[request]?).bind (·.answer) with
      | some (some s) =>
        if p.disconnect.any fun o => (readAuthoritative s).contains o.aggregate then p.exhausted
        else none
      | some none => p.exhausted
      | none => none
    | _ => none
  | _ => none

/-- The state that a step puts in place. -/
def replacement : Action → Option ConnectionGateData
  | .finish =>
    match w.running with
    | some (.applying _ p revision _ next _, true) =>
      if revision = w.revision ∧ p ≠ .load then some next else none
    | some (.upserting _ next _, true) => some next
    | _ => none
  | .resume i =>
    match w.tasks[i]? with
    | some (.returned .load (some true) refreshed _ _) => some refreshed
    | _ => none
  | _ => none

/-- A step after which there is no state. -/
def clears : Action → Bool
  | .retryLoad => true
  | .resume i =>
    match w.tasks[i]? with
    | some (.reading .load _ request) => (w.requests[request]?).bind (·.answer) = some none
    | some (.returned .load none _ _ _) => true
    | _ => false
  | _ => false

end World

/-! ### Attempts -/

/-- The state with the key of the first request for an aggregate since it came into it, and the
requests under way by the calls that have made them. -/
structure Attempts where
  world : World
  keys : Aggregate → Option ℕ
  underway : List (ℕ × DisconnectOperation)

/-- A step of the controller, and whether the request that it ends goes on; or such a request
ends. -/
inductive Attempts.Action
  | act (a : ConnectionGate.Action) (late : Bool)
  | settled (task : ℕ)

namespace Attempts

variable (s : Attempts)

/-- The request that has been made by a step to the state. -/
def made (w : World) : Option DisconnectOperation :=
  match w.tasks[s.world.tasks.length]? with
  | some (.requesting o _) => some o
  | _ => none

/-- What has left the state is forgotten. -/
def keysAfter (w : World) (g : Aggregate) : Option ℕ :=
  if w.data.isSome ∧ w.shown g = false then none
  else s.keys g <|> ((s.made w).filter fun o => o.aggregate = g).map (·.idempotencyKey)

/-- The call's request is no longer under way. -/
def settle (i : ℕ) : List (ℕ × DisconnectOperation) := s.underway.filter fun x => x.1 ≠ i

def underwayAfter (w : World) (late : Bool) :
    ConnectionGate.Action → List (ℕ × DisconnectOperation)
  | .disconnected i error => if late && error.any (·.ambiguous) then s.underway else s.settle i
  | _ => s.underway ++ ((s.made w).map fun o => (s.world.tasks.length, o)).toList

def step : Action → Option Attempts
  | .act a late =>
    (s.world.step a).map fun w => ⟨w, s.keysAfter w, s.underwayAfter w late a⟩
  | .settled i =>
    -- an answer that is awaited comes with a step of the controller
    match s.world.tasks[i]? with
    | some (.requesting _ _) => none
    | _ => some { s with underway := s.settle i }

def initial (server : Summary) (cache : DisplayCache) (named : List Aggregate) : Attempts :=
  ⟨.initial server cache named, fun _ => none, []⟩

/-! ### What must hold -/

/-- The disconnects have kept their identities. -/
structure Kept : Prop where
  /-- At most one request for an aggregate is under way. -/
  single : s.underway.Pairwise fun x y => x.2.aggregate ≠ y.2.aggregate
  sameKey : ∀ x ∈ s.underway, ∀ k ∈ s.keys x.2.aggregate, x.2.idempotencyKey = k
  /-- What has been asked for is shown until the aggregate has left the state. -/
  visible : ∀ g, ∀ k ∈ s.keys g, ∃ phase, s.world.showing g = some (k, phase)
  inProgress : ∀ i o, s.world.disconnectOf i = some o → s.world.shown o.aggregate = true →
    s.world.showing o.aggregate = some (o.idempotencyKey, .disconnecting)
  present : ∀ g k phase, s.world.showing g = some (k, phase) →
    s.world.shown g = true ∧ s.keys g = some k

/-! ### The condition -/

end Attempts

/-- The data shows the same operations as the state of what it contains, and no others, and has
nothing back that is being disconnected. -/
structure World.Fits (w : World) (d : ConnectionGateData) : Prop where
  same : ∀ g ∈ d.aggregates,
    (d.operation g).map (fun o => (o.idempotencyKey, o.phase)) = w.showing g
  within : ∀ o ∈ d.operations, d.contains o.aggregate = true
  back : ∀ t ∈ w.tasks, ∀ o ∈ t.disconnect, d.contains o.aggregate = true →
    w.shown o.aggregate = true

/-- Only what is in the state is asked to be disconnected, while no request for it goes on that is
not awaited; failures are shown only of what is in the state; the state that is put in place
fits; and the state is given up only when no operation is shown. -/
structure Attempts.Orderly (s : Attempts) (a : ConnectionGate.Action) : Prop where
  asking : ∀ g key retry, a = .disconnect g key retry → ∀ d ∈ s.world.data, d.asks g retry = true →
    d.contains g = true ∧ ∀ x ∈ s.underway, x.2.aggregate = g →
      ∃ asked, s.world.tasks[x.1]? = some (.requesting x.2 asked)
  failing : ∀ o ∈ s.world.records a, ∀ d ∈ s.world.data, d.contains o.aggregate = true
  replacing : ∀ d ∈ s.world.replacement a, s.world.Fits d
  clearing : s.world.clears a = true → ∀ d ∈ s.world.data, d.operations = []

def Attempts.Allowed (s : Attempts) : Attempts.Action → Prop
  | .act a _ => s.Orderly a
  | .settled _ => True

/-! ### Calls that await a mutation -/

/-- What the call awaits of a mutation: that a summary is put in place, or a removal. -/
def Task.awaits : Task → Option (Option Purpose)
  | .queued p => some (some p)
  | .removing _ => some none
  | _ => none

/-- The call that the mutation answers, and what it awaits. -/
def Mutation.call : Mutation → Option (ℕ × Option Purpose)
  | .apply i p _ _ _ => some (i, some p)
  | .remove _ task _ => task.map (·, none)
  | .upsertDevice _ _ _ | .upsertRoom _ _ _ _ => none

def Running.call : Running → Option (ℕ × Option Purpose)
  | .applying i p _ _ _ _ => some (i, some p)
  | .removing _ task _ | .purging _ task _ => task.map (·, none)
  | .upserting _ _ _ => none

namespace World

variable (w : World)

def awaitsAt (i : ℕ) : Option (Option Purpose) := (w.tasks[i]?).bind Task.awaits

def calls : List (ℕ × Option Purpose) :=
  (w.running.bind fun r => r.1.call).toList ++ w.queue.filterMap Mutation.call

/-- Every mutation answers a call of its own that awaits it. -/
structure Waiting : Prop where
  awaits : ∀ x ∈ w.calls, w.awaitsAt x.1 = some x.2
  distinct : w.calls.Pairwise fun x y => x.1 ≠ y.1

/-- The mutations answer the calls that await them, and no disconnect is new. -/
structure Steady (w' : World) : Prop where
  waiting : w'.Waiting
  fewer : ∀ i o, w'.disconnectOf i = some o → w.disconnectOf i = some o

end World

section Steady

variable {w w' w'' : World} {i : ℕ} {t : Task} {p : Purpose}

lemma awaitsAt_setTask (h : i < w.tasks.length) : (w.setTask i t).awaitsAt i = t.awaits := by
  simp [World.awaitsAt, World.setTask, h]

lemma awaitsAt_setTask_ne {j : ℕ} (h : i ≠ j) : (w.setTask i t).awaitsAt j = w.awaitsAt j := by
  simp [World.awaitsAt, World.setTask, List.getElem?_set_ne h]

lemma disconnectOf_setTask {j : ℕ} {o : DisconnectOperation}
    (h : (w.setTask i t).disconnectOf j = some o) :
    i = j ∧ t.disconnect = some o ∨ i ≠ j ∧ w.disconnectOf j = some o := by
  rcases eq_or_ne i j with rfl | hne
  · refine .inl ⟨rfl, ?_⟩
    simp only [World.disconnectOf, World.setTask, List.getElem?_set_self'] at h
    cases hi : w.tasks[i]? with
    | none => simp [hi] at h
    | some t' => simpa [hi] using h
  · exact .inr ⟨hne, by simpa [World.disconnectOf, World.setTask, List.getElem?_set_ne hne] using h⟩

lemma World.Waiting.steady (h : w.Waiting) : w.Steady w := ⟨h, fun _ _ => id⟩

lemma World.Steady.trans (h : w.Steady w') (h' : w'.Steady w'') : w.Steady w'' :=
  ⟨h'.waiting, fun i o hi => h.fewer i o (h'.fewer i o hi)⟩

/-- The calls and the mutations stay as they are. -/
lemma World.Waiting.same (h : w.Waiting) (ht : w'.tasks = w.tasks) (hc : w'.calls = w.calls) :
    w.Steady w' where
  waiting := by
    refine ⟨fun x hx => ?_, hc ▸ h.distinct⟩
    rw [World.awaitsAt, ht]
    exact h.awaits x (hc ▸ hx)
  fewer := by
    intro i o hi
    rwa [World.disconnectOf, ht] at hi

/-- A call that awaits no mutation goes on with its own disconnect, or with none. -/
lemma World.Waiting.setTask (h : w.Waiting) (hi : w.awaitsAt i = none)
    (hd : ∀ o ∈ t.disconnect, w.disconnectOf i = some o) : w.Steady (w.setTask i t) where
  waiting := by
    refine ⟨fun x hx => ?_, h.distinct⟩
    have hw := h.awaits x hx
    have hne : i ≠ x.1 := by
      rintro rfl
      exact Option.some_ne_none _ (hw.symm.trans hi)
    rw [awaitsAt_setTask_ne hne]
    exact hw
  fewer := by
    intro j o hj
    rcases disconnectOf_setTask hj with ⟨rfl, ho⟩ | ⟨-, hj⟩
    · exact hd o ho
    · exact hj

lemma World.Waiting.start (h : w.Waiting) (hd : t.disconnect = none) : w.Steady (w.start t) where
  waiting := by
    refine ⟨fun x hx => ?_, h.distinct⟩
    obtain ⟨t', ht', hx⟩ := Option.bind_eq_some_iff.mp (h.awaits x hx)
    have hlt : x.1 < w.tasks.length := (List.getElem?_eq_some_iff.mp ht').1
    simp [World.awaitsAt, World.start, List.getElem?_append_left hlt, ht', hx]
  fewer := by
    intro i o hi
    obtain ⟨t', ht', ho⟩ := Option.bind_eq_some_iff.mp hi
    rcases Nat.lt_or_ge i w.tasks.length with hlt | hge
    · rw [World.start, List.getElem?_append_left hlt] at ht'
      exact Option.bind_eq_some_iff.mpr ⟨t', ht', ho⟩
    · rw [World.start, List.getElem?_append_right hge] at ht'
      obtain rfl := List.mem_singleton.mp (List.mem_of_getElem? ht')
      simp [hd] at ho

/-- A mutation that answers no call is queued. -/
lemma World.Waiting.enqueue (h : w.Waiting) {m : Mutation} (hm : m.call = none) :
    w.Steady (w.enqueue m) :=
  h.same rfl (by simp [World.calls, World.enqueue, List.filterMap_append, hm])

/-- A mutation is queued, and the call awaits it. -/
lemma World.Waiting.enqueueCall (h : w.Waiting) {m : Mutation} {e : Option Purpose}
    (hi : w.awaitsAt i = none) (hlt : i < w.tasks.length) (hm : m.call = some (i, e))
    (ht : t.awaits = some e) (hd : ∀ o ∈ t.disconnect, w.disconnectOf i = some o) :
    w.Steady ((w.enqueue m).setTask i t) where
  waiting := by
    have hcalls : ((w.enqueue m).setTask i t).calls = w.calls ++ [(i, e)] := by
      simp [World.calls, World.enqueue, World.setTask, List.filterMap_append, hm]
    have hne : ∀ x ∈ w.calls, i ≠ x.1 := by
      rintro x hx rfl
      exact Option.some_ne_none _ ((h.awaits x hx).symm.trans hi)
    constructor
    · intro x hx
      rw [hcalls] at hx
      rcases List.mem_append.mp hx with hx | hx
      · rw [awaitsAt_setTask_ne (hne x hx)]
        exact h.awaits x hx
      · obtain rfl := List.mem_singleton.mp hx
        exact (awaitsAt_setTask (w := w.enqueue m) hlt).trans ht
    · rw [hcalls, List.pairwise_append]
      refine ⟨h.distinct, List.pairwise_singleton _ _, fun x hx y hy => ?_⟩
      obtain rfl := List.mem_singleton.mp hy
      exact (hne x hx).symm
  fewer := by
    intro j o hj
    rcases disconnectOf_setTask hj with ⟨rfl, ho⟩ | ⟨-, hj⟩
    · exact hd o ho
    · exact hj

/-- The mutation at the head answers its call, or is at its end. -/
lemma World.Waiting.answer (h : w.Waiting) {x : ℕ × Option Purpose} (hc : w.calls = x :: w'.calls)
    (ht : w'.tasks = w.tasks.set x.1 t) (hd : ∀ o ∈ t.disconnect, w.disconnectOf x.1 = some o) :
    w.Steady w' where
  waiting := by
    have hdist := List.pairwise_cons.mp (hc ▸ h.distinct)
    refine ⟨fun y hy => ?_, hdist.2⟩
    rw [World.awaitsAt, ht, List.getElem?_set_ne (hdist.1 y hy)]
    exact h.awaits y (hc ▸ List.mem_cons_of_mem x hy)
  fewer := by
    intro j o hj
    rw [World.disconnectOf, ht] at hj
    rcases disconnectOf_setTask (w := w) hj with ⟨rfl, ho⟩ | ⟨-, hj⟩
    · exact hd o ho
    · exact hj

end Steady

/-! ### What a step does -/

/-- `d` without what is removed. -/
structure ConnectionGateData.Without (e d : ConnectionGateData) (gs : List Aggregate) : Prop where
  contains : ∀ g, e.contains g = true ↔ d.contains g = true ∧ g ∉ gs
  operations : ∀ o, o ∈ e.operations ↔ o ∈ d.operations ∧ o.aggregate ∉ gs
  operation : ∀ g, g ∉ gs → e.operation g = d.operation g

namespace World

/-- What is shown stays as it is. -/
structure Calm (w w' : World) : Prop extends Steady w w' where
  data : w'.data = w.data

/-- The call comes to its end, and the failure of its disconnect is shown. -/
structure Fails (w : World) (o : DisconnectOperation) (w' : World) : Prop extends Steady w w' where
  ended : ∃ i, w.disconnectOf i = some o ∧ w'.disconnectOf i = none
  data : ∃ message,
    w'.data = w.data.map (·.setOperation { o with phase := .failed, message := message })

/-- A call requests the disconnect, which is shown. -/
structure Asks (w : World) (g : Aggregate) (retry : Bool) (w' : World) : Prop where
  waiting : w'.Waiting
  request : ∃ d o asked, w.data = some d ∧ d.asks g retry = true ∧ o.aggregate = g ∧
    o.phase = .disconnecting ∧ (∀ o' ∈ d.operation g, o'.idempotencyKey = o.idempotencyKey) ∧
      w'.data = some (d.setOperation o) ∧ w'.tasks = w.tasks ++ [.requesting o asked]

/-- What a step can do. -/
inductive Effect (w : World) (a : Action) (w' : World) : Prop
  | calm (h : w.Calm w')
  | fails (o : DisconnectOperation) (ho : w.records a = some o) (h : w.Fails o w')
  | asks (g : Aggregate) (key : ℕ) (retry : Bool) (ha : a = .disconnect g key retry)
      (h : w.Asks g retry w')
  | replaces (d : ConnectionGateData) (hd : w.replacement a = some d) (h : w.Steady w')
      (data : w'.data = some d)
  | removes (d e : ConnectionGateData) (gs : List Aggregate) (he : e.Without d gs)
      (h : w.Steady w') (before : w.data = some d) (data : w'.data = some e)
  | clears (hc : w.clears a = true) (h : w.Steady w') (data : w'.data = none)

end World

section Calls

variable {w w' w'' : World} {i : ℕ} {t : Task} {p : Purpose} {o : DisconnectOperation}

lemma World.Calm.trans (h : w.Calm w') (h' : w'.Calm w'') : w.Calm w'' :=
  ⟨h.toSteady.trans h'.toSteady, h'.data.trans h.data⟩

lemma awaitsAt_eq (h : w.tasks[i]? = some t) : w.awaitsAt i = t.awaits := by
  simp [World.awaitsAt, h]

lemma disconnectOf_eq (h : w.tasks[i]? = some t) : w.disconnectOf i = t.disconnect := by
  simp [World.disconnectOf, h]

lemma exhausted_eq (h : p.exhausted = some o) : p.disconnect = some o := by
  cases p with
  | confirm o' error attempt asked =>
    obtain ⟨-, heq⟩ := Option.ite_none_left_eq_some.mp h
    exact heq
  | load | reconcile | claim => cases h

lemma summary_tasks : w.summary.1.tasks = w.tasks := by
  unfold World.summary
  split <;> rfl

lemma World.Waiting.summary (h : w.Waiting) : w.Calm w.summary.1 := by
  refine ⟨h.same summary_tasks ?_, ?_⟩ <;> unfold World.summary <;> split <;> rfl

lemma World.Waiting.read (h : w.Waiting) (hi : w.awaitsAt i = none)
    (hp : ∀ o ∈ p.disconnect, w.disconnectOf i = some o) : w.Calm (w.read i p) := by
  have hs := h.summary
  refine ⟨hs.toSteady.trans (hs.waiting.setTask ?_ fun o ho => ?_), hs.data⟩
  · rw [World.awaitsAt, summary_tasks]
    exact hi
  · rw [World.disconnectOf, summary_tasks]
    exact hp o ho

lemma World.Waiting.startReading (h : w.Waiting) (hp : p.disconnect = none) :
    w.Calm (w.startReading p) :=
  ⟨h.summary.toSteady.trans (h.summary.waiting.start hp), h.summary.data⟩

lemma World.Waiting.calmTask (h : w.Waiting) (hi : w.awaitsAt i = none)
    (hd : ∀ o ∈ t.disconnect, w.disconnectOf i = some o) : w.Calm (w.setTask i t) :=
  ⟨h.setTask hi hd, rfl⟩

lemma World.Waiting.recordFailure (h : w.Waiting) (hi : w.awaitsAt i = none)
    (ho : w.disconnectOf i = some o) (error : DisconnectError) :
    w.Fails o (w.recordFailure i o error) where
  toSteady := (h.same rfl rfl : w.Steady (w.setOperation _)).trans
    (World.Waiting.setTask (h.same rfl rfl : w.Steady (w.setOperation _)).waiting hi nofun)
  ended := by
    refine ⟨i, ho, ?_⟩
    cases hj : (w.recordFailure i o error).disconnectOf i with
    | none => rfl
    | some o' =>
      rcases disconnectOf_setTask hj with ⟨-, hj⟩ | ⟨hne, -⟩
      · cases hj
      · exact absurd rfl hne
  data := ⟨_, rfl⟩

/-- After an attempt that has confirmed nothing the failure is shown, or nothing happens. -/
lemma World.Waiting.pause (h : w.Waiting) (hi : w.awaitsAt i = none)
    (hp : ∀ o ∈ p.disconnect, w.disconnectOf i = some o) :
    w.Calm (w.pause i p) ∨ ∃ o, p.exhausted = some o ∧ w.Fails o (w.pause i p) := by
  cases p with
  | claim attempt =>
    refine .inl (h.calmTask hi ?_)
    split <;> nofun
  | confirm o error attempt asked =>
    rw [World.pause]
    split
    · exact .inl (h.calmTask hi hp)
    · rename_i hlast
      exact .inr ⟨o, if_neg hlast, h.recordFailure hi (hp o rfl) error⟩
  | load | reconcile => exact .inl (h.calmTask hi nofun)

/-- The failure of a load leaves no state. -/
lemma World.Waiting.summaryFailed (h : w.Waiting) (hi : w.awaitsAt i = none)
    (hp : ∀ o ∈ p.disconnect, w.disconnectOf i = some o) :
    p = .load ∧ w.Steady (w.summaryFailed i p) ∧ (w.summaryFailed i p).data = none ∨
      w.Calm (w.summaryFailed i p) ∨
        ∃ o, p.exhausted = some o ∧ w.Fails o (w.summaryFailed i p) := by
  cases p with
  | load =>
    have hs : w.Steady (w.setTask i .finished) := h.setTask hi nofun
    exact .inl ⟨rfl, hs.trans (hs.waiting.same rfl rfl), rfl⟩
  | reconcile | claim | confirm => exact .inr (h.pause hi hp)

lemma World.Waiting.enqueueApply (h : w.Waiting) (ht : w.tasks[i]? = some t) (ha : t.awaits = none)
    (hp : ∀ o ∈ p.disconnect, w.disconnectOf i = some o) (revision : ℕ)
    (refreshed : ConnectionGateData) (request : ℕ) :
    w.Calm (w.enqueueApply i p revision refreshed request) :=
  ⟨h.enqueueCall ((awaitsAt_eq ht).trans ha) (List.getElem?_eq_some_iff.mp ht).1 rfl rfl hp, rfl⟩

/-- A summary that has come is queued, or the attempt has confirmed nothing. -/
lemma World.Waiting.summaryRead (h : w.Waiting) {revision request : ℕ}
    (ht : w.tasks[i]? = some (.reading p revision request)) (s : Summary) :
    w.Calm (w.summaryRead i p revision request (readAuthoritative s)) ∨
      ∃ o, p.exhausted = some o ∧ (readAuthoritative s).contains o.aggregate = true ∧
        w.Fails o (w.summaryRead i p revision request (readAuthoritative s)) := by
  have hi : w.awaitsAt i = none := awaitsAt_eq ht
  have hp : ∀ o ∈ p.disconnect, w.disconnectOf i = some o :=
    fun o ho => (disconnectOf_eq ht).trans ho
  have happly := fun r => h.enqueueApply ht rfl hp r (readAuthoritative s) request
  cases p with
  | load => exact .inl (happly revision)
  | reconcile =>
    rw [World.summaryRead]
    split
    · exact .inl (happly revision)
    · exact .inl (h.calmTask hi (by rintro _ ⟨⟩))
  | claim attempt =>
    rw [World.summaryRead]
    split
    · exact .inl (happly revision)
    · rcases h.pause hi hp with hc | ⟨o, ho, -⟩
      · exact .inl hc
      · cases ho
  | confirm o error attempt asked =>
    rw [World.summaryRead]
    split
    · rename_i hin
      rcases h.pause hi hp with hc | ⟨o', ho, hf⟩
      · exact .inl hc
      · cases exhausted_eq ho
        exact .inr ⟨o, ho, hin, hf⟩
    · exact .inl (happly w.revision)

/-- The call goes on with what its mutation has returned. -/
lemma World.Waiting.mutationReturned (h : w.Waiting) {applied : Option Bool}
    {refreshed : ConnectionGateData} {request mutations : ℕ}
    (ht : w.tasks[i]? = some (.returned p applied refreshed request mutations)) :
    w.Effect (.resume i) (w.mutationReturned i p refreshed applied) := by
  have hi : w.awaitsAt i = none := awaitsAt_eq ht
  have hrecords (hne : applied ≠ some true) : w.records (.resume i) = p.exhausted := by
    simp [World.records, ht, hne]
  have hp (hne : applied ≠ some true) : ∀ o ∈ p.disconnect, w.disconnectOf i = some o := by
    intro o ho
    rw [disconnectOf_eq ht]
    exact (if_neg hne).trans ho
  rcases applied with _ | _ | _
  · rcases h.summaryFailed hi (hp nofun) with ⟨rfl, hs, hd⟩ | hc | ⟨o, ho, hf⟩
    · exact .clears (by simp [World.clears, ht]) hs hd
    · exact .calm hc
    · exact .fails o ((hrecords nofun).trans ho) hf
  · cases p with
    | load => exact .calm (h.read hi nofun)
    | reconcile | claim | confirm =>
      rcases h.pause hi (hp nofun) with hc | ⟨o, ho, hf⟩
      · exact .calm hc
      · exact .fails o ((hrecords nofun).trans ho) hf
  · have hs : w.Steady (w.setTask i .finished) := h.setTask hi nofun
    cases p with
    | load =>
      exact .replaces refreshed (by simp [World.replacement, ht])
        (hs.trans (hs.waiting.same rfl rfl)) rfl
    | reconcile | claim | confirm => exact .calm ⟨hs, rfl⟩

lemma World.Waiting.resume (h : w.Waiting) (ht : w.tasks[i]? = some t)
    (hres : w.resume i t = some w') : w.Effect (.resume i) w' := by
  cases t with
  | reading p revision request =>
    have hi : w.awaitsAt i = none := awaitsAt_eq ht
    have hp : ∀ o ∈ p.disconnect, w.disconnectOf i = some o :=
      fun o ho => (disconnectOf_eq ht).trans ho
    simp only [World.resume] at hres
    split at hres
    · rename_i s hs
      cases hres
      rcases h.summaryRead ht s with hc | ⟨o, ho, hin, hf⟩
      · exact .calm hc
      · refine .fails o ?_ hf
        simp [World.records, ht, hs, exhausted_eq ho, hin, ho]
    · rename_i hs
      cases hres
      rcases h.summaryFailed hi hp with ⟨rfl, hsteady, hd⟩ | hc | ⟨o, ho, hf⟩
      · exact .clears (by simp [World.clears, ht, hs]) hsteady hd
      · exact .calm hc
      · exact .fails o (by simp [World.records, ht, hs, ho]) hf
    · cases hres
  | returned p applied refreshed request mutations =>
    cases hres
    exact h.mutationReturned ht
  | pausing p =>
    have hi : w.awaitsAt i = none := awaitsAt_eq ht
    cases p with
    | claim attempt =>
      cases hres
      exact .calm (h.read hi (by rintro _ ⟨⟩))
    | confirm o error attempt asked =>
      cases hres
      exact .calm (h.read hi fun o' ho => (disconnectOf_eq ht).trans ho)
    | load | reconcile => cases hres
  | removeFailed o =>
    cases hres
    exact .fails o (by simp [World.records, ht])
      (h.recordFailure (awaitsAt_eq ht) (disconnectOf_eq ht) _)
  | queued | claiming | requesting | removing | finished => cases hres

lemma World.Waiting.requestDisconnect (h : w.Waiting) {d : ConnectionGateData} {g : Aggregate}
    {retry : Bool} (hd : w.data = some d) (ha : d.asks g retry = true) (hg : o.aggregate = g)
    (hphase : o.phase = .disconnecting)
    (hkey : ∀ o' ∈ d.operation g, o'.idempotencyKey = o.idempotencyKey) :
    w.Asks g retry (w.requestDisconnect o) where
  waiting := by
    refine ⟨fun x hx => ?_, h.distinct⟩
    obtain ⟨t, ht, hx⟩ := Option.bind_eq_some_iff.mp (h.awaits x hx)
    have hlt : x.1 < w.tasks.length := (List.getElem?_eq_some_iff.mp ht).1
    refine Option.bind_eq_some_iff.mpr ⟨t, ?_, hx⟩
    exact (List.getElem?_append_left hlt).trans ht
  request := ⟨d, o, w.revision + 1, hd, ha, hg, hphase, hkey,
    by simp [World.requestDisconnect, World.start, World.setOperation, World.update, World.bump,
      hd],
    rfl⟩

lemma World.Waiting.disconnect (h : w.Waiting) (g : Aggregate) (key : ℕ) (retry : Bool) :
    w.Effect (.disconnect g key retry) (w.disconnect g key retry) := by
  have hcalm : w.Calm w := ⟨h.steady, rfl⟩
  unfold World.disconnect
  split
  · exact .calm hcalm
  · rename_i d hd
    split
    · exact .calm hcalm
    · rename_i hop
      split
      · rename_i hretry
        refine .asks g key retry rfl (h.requestDisconnect hd ?_ rfl rfl ?_)
        · simp [ConnectionGateData.asks, hop, hretry]
        · rintro o' ho'
          cases hop.symm.trans ho'
          rfl
      · exact .calm hcalm
    · rename_i hop
      refine .asks g key retry rfl (h.requestDisconnect hd ?_ rfl rfl ?_)
      · simp [ConnectionGateData.asks, hop]
      · intro o' ho'
        cases hop.symm.trans ho'

lemma World.Waiting.disconnected (h : w.Waiting) {asked : ℕ}
    (ht : w.tasks[i]? = some (.requesting o asked)) (error : Option DisconnectError) :
    w.Effect (.disconnected i error) (w.disconnected i o asked error) := by
  have hi : w.awaitsAt i = none := awaitsAt_eq ht
  have ho : w.disconnectOf i = some o := disconnectOf_eq ht
  have hp : ∀ o' ∈ some o, w.disconnectOf i = some o' := fun o' heq => ho.trans heq
  cases error with
  | none =>
    have hb : w.Steady w.bump := h.same rfl rfl
    have hlt : i < w.tasks.length := (List.getElem?_eq_some_iff.mp ht).1
    exact .calm ⟨hb.trans (hb.waiting.enqueueCall hi hlt rfl rfl hp), rfl⟩
  | some error =>
    rw [World.disconnected]
    split
    · exact .calm (h.read hi hp)
    · rename_i hopen
      exact .fails o (by simp [World.records, ht, hopen]) (h.recordFailure hi ho error)

lemma World.Waiting.arrive (h : w.Waiting) {m : Arrival → Mutation} (hm : ∀ a, (m a).call = none) :
    w.Calm (w.arrive m) :=
  have hb : w.Steady w.bump := h.same rfl rfl
  ⟨hb.trans (hb.waiting.enqueue (hm _)), rfl⟩

lemma World.Waiting.retryLoad (h : w.Waiting) : w.Steady w.retryLoad ∧ w.retryLoad.data = none := by
  have hb : w.Steady { w.bump with data := none } := h.same rfl rfl
  have hr := hb.waiting.startReading (p := .load) rfl
  exact ⟨hb.trans hr.toSteady, hr.data⟩

lemma World.Waiting.reconcile (h : w.Waiting) : w.Calm w.reconcile := by
  unfold World.reconcile
  split
  · rename_i hd
    exact ⟨h.retryLoad.1, h.retryLoad.2.trans hd.symm⟩
  · exact h.startReading rfl

lemma World.Waiting.reduceLifecycle (h : w.Waiting) (e : LifecycleEvent) :
    w.Calm (w.reduceLifecycle e) := by
  have hcalm : w.Calm w := ⟨h.steady, rfl⟩
  cases e with
  | deviceRevoked id => exact h.arrive fun _ => rfl
  | roomRemoved id => exact h.arrive fun _ => rfl
  | devicePaired device =>
    cases device with
    | none => exact h.reconcile
    | some device =>
      rw [World.reduceLifecycle]
      split
      · exact h.arrive fun _ => rfl
      · exact hcalm
  | roomCreated room =>
    cases room with
    | none => exact h.reconcile
    | some room =>
      rw [World.reduceLifecycle]
      split
      · exact h.arrive fun _ => rfl
      · exact hcalm

end Calls

/-! #### Mutations -/

section Mutations

variable {w w' : World} {r : Running} {b : Bool} {rest : List Mutation}

lemma calls_running (h : w.running = some (r, b)) :
    w.calls = r.call.toList ++ w.queue.filterMap Mutation.call := by
  simp [World.calls, h]

/-- The mutation that runs has put nothing in place, and goes on or is at its end. -/
lemma World.Waiting.goesOn (h : w.Waiting) (hr : w.running = some (r, b))
    (hcall : (w'.running.bind fun x => x.1.call) = r.call) (ht : w'.tasks = w.tasks)
    (hq : w'.queue = w.queue) : w.Steady w' :=
  h.same ht (by rw [calls_running hr, World.calls, hcall, hq])

/-- The call of a mutation gets its answer. -/
lemma World.Waiting.returns (h : w.Waiting) {v : World} {i : ℕ} {p : Purpose}
    (hc : w.calls = (i, some p) :: v.queue.filterMap Mutation.call) (ht : v.tasks = w.tasks)
    (applied : Option Bool) (refreshed : ConnectionGateData) (request : ℕ) :
    w.Steady (v.returns i p applied refreshed request) := by
  refine h.answer (x := (i, some p)) hc (congrArg (List.set · i _) ht) fun o ho => ?_
  obtain ⟨t, hi, ha⟩ := Option.bind_eq_some_iff.mp (h.awaits (i, some p) (hc ▸ List.mem_cons_self))
  have hqueued : t = .queued p := by
    cases t <;> simp_all [Task.awaits]
  subst hqueued
  obtain ⟨-, ho⟩ := Option.ite_none_left_eq_some.mp ho
  exact (disconnectOf_eq hi).trans ho

lemma World.Waiting.mutateApply (h : w.Waiting) {i : ℕ} {p : Purpose} {revision request : ℕ}
    {refreshed : ConnectionGateData} (hrun : w.running = none)
    (hq : w.queue = .apply i p revision refreshed request :: rest) :
    w.Calm ({ w with queue := rest }.mutateApply i p revision refreshed request) := by
  have hc : w.calls = (i, some p) :: rest.filterMap Mutation.call := by
    simp [World.calls, hrun, hq, Mutation.call]
  have hreturns (v : World) (applied : Option Bool) (ht : v.tasks = w.tasks)
      (hd : v.data = w.data) (hv : v.queue = rest) :
      w.Calm (v.returns i p applied refreshed request) :=
    ⟨h.returns (hv ▸ hc) ht applied refreshed request, hd⟩
  have happlying (next : ConnectionGateData) :
      w.Calm ({ w with queue := rest }.applying i p refreshed next request) :=
    ⟨h.same rfl hc.symm, rfl⟩
  unfold World.mutateApply
  split
  · split
    · split
      · exact hreturns _ _ rfl rfl rfl
      · split
        · exact happlying _
        · exact hreturns _ _ rfl rfl rfl
    · exact happlying _
  · split
    · split
      · exact hreturns _ _ rfl rfl rfl
      · exact hreturns _ _ rfl rfl rfl
    · exact hreturns _ _ rfl rfl rfl

/-- A mutation begins, or is at its end at once. -/
lemma World.Waiting.mutate (h : w.Waiting) {m : Mutation} (hrun : w.running = none)
    (hq : w.queue = m :: rest) : w.Calm ({ w with queue := rest }.mutate m) := by
  have hsame (hm : m.call = none) (v : World) (ht : v.tasks = w.tasks) (hd : v.data = w.data)
      (hc : v.calls = rest.filterMap Mutation.call) : w.Calm v :=
    ⟨h.same ht (hc.trans (by simp [World.calls, hrun, hq, hm])), hd⟩
  cases m with
  | apply i p revision refreshed request => exact h.mutateApply hrun hq
  | upsertDevice id device a => exact hsame rfl _ rfl rfl rfl
  | upsertRoom id desktopDeviceId room a =>
    rw [World.mutate]
    split
    · exact hsame rfl _ rfl rfl rfl
    · split
      · exact hsame rfl _ rfl rfl rfl
      · exact hsame rfl _ rfl rfl rfl
  | remove g task a =>
    refine ⟨h.same rfl ?_, rfl⟩
    rw [World.calls, World.calls, hrun, hq]
    cases task <;> rfl

lemma World.Waiting.cacheWritten (h : w.Waiting) (hr : w.running = some (r, b))
    (hres : w.cacheWritten r = some w') : w.Calm w' := by
  cases r with
  | applying i p revision refreshed next request =>
    obtain ⟨-, heq⟩ := Option.ite_none_right_eq_some.mp hres
    cases heq
    exact ⟨h.goesOn hr rfl rfl rfl, rfl⟩
  | upserting g next a =>
    obtain ⟨-, heq⟩ := Option.ite_none_right_eq_some.mp hres
    cases heq
    exact ⟨h.goesOn hr rfl rfl rfl, rfl⟩
  | removing g task a =>
    cases hres
    exact ⟨h.goesOn hr rfl rfl rfl, rfl⟩
  | purging id task a =>
    cases hres
    exact ⟨h.goesOn hr rfl rfl rfl, rfl⟩

/-- The call whose removal has failed shows the failure next. -/
lemma World.Waiting.failRemoving (h : w.Waiting) {task : Option ℕ} (hr : w.running = some (r, b))
    (hcall : r.call = task.map (·, none)) : w.Calm (w.failRemoving task) := by
  cases task with
  | none => exact ⟨h.goesOn hr hcall.symm rfl rfl, rfl⟩
  | some i =>
    have hc : w.calls = (i, none) :: w.queue.filterMap Mutation.call := by
      simp [calls_running hr, hcall]
    obtain ⟨t, ht, ha⟩ := Option.bind_eq_some_iff.mp (h.awaits (i, none) (hc ▸ List.mem_cons_self))
    obtain ⟨o, rfl⟩ : ∃ o, t = .removing o := by
      cases t <;> simp_all [Task.awaits]
    simp only [World.failRemoving, ht]
    exact ⟨h.answer (x := (i, none)) hc rfl fun o' ho => (disconnectOf_eq ht).trans ho, rfl⟩

lemma World.Waiting.cacheFailed (h : w.Waiting) (hr : w.running = some (r, b)) :
    w.Calm (w.cacheFailed r) := by
  cases r with
  | applying i p revision refreshed next request =>
    exact ⟨h.returns (calls_running hr) rfl none refreshed request, rfl⟩
  | upserting g next a => exact ⟨h.goesOn hr rfl rfl rfl, rfl⟩
  | removing g task a => exact h.failRemoving hr rfl
  | purging id task a => exact h.failRemoving hr rfl

/-- The call that awaits a removal comes to its end with it. -/
lemma World.Waiting.removalDone (h : w.Waiting) {task : Option ℕ} (hr : w.running = some (r, b))
    (hcall : r.call = task.map (·, none)) (g : Aggregate) (data : Option ConnectionGateData) :
    w.Steady ({ w with data := data }.removalDone g task) := by
  cases task with
  | none => exact h.goesOn hr hcall.symm rfl rfl
  | some i =>
    have hc : w.calls = (i, none) :: w.queue.filterMap Mutation.call := by
      simp [calls_running hr, hcall]
    exact h.answer (x := (i, none)) (t := .finished) hc rfl nofun

lemma operation_filter {d : ConnectionGateData} {gs : List Aggregate} {g : Aggregate}
    (hg : g ∉ gs) :
    (d.removeOperations gs).find? (fun o => o.aggregate = g) = d.operation g := by
  simp only [ConnectionGateData.removeOperations, ConnectionGateData.operation, List.find?_filter]
  congr 1
  funext o
  by_cases ho : o.aggregate = g
  · simp [ho, hg]
  · simp [ho]

lemma removeRoom_without (d : ConnectionGateData) (id : ℕ) :
    (d.removeRoom id).Without d [(.room, id)] where
  contains := by
    rintro ⟨kind, id'⟩
    cases kind <;>
      simp [ConnectionGateData.contains, ConnectionGateData.items, ConnectionGateData.removeRoom]
    grind
  operations := by
    simp [ConnectionGateData.removeRoom, ConnectionGateData.removeOperations]
  operation := fun _ hg => operation_filter hg

lemma removeDevice_without (d : ConnectionGateData) (id : ℕ) :
    (d.removeDevice id).Without d ((.device, id) :: (d.removedRoomIds id).map (.room, ·)) where
  contains := by
    rintro ⟨kind, id'⟩
    cases kind <;>
      simp [ConnectionGateData.contains, ConnectionGateData.items, ConnectionGateData.removeDevice,
        ConnectionGateData.remainingDevices]
    · grind
    · grind
  operations := by
    simp [ConnectionGateData.removeDevice, ConnectionGateData.removeOperations]
  operation := fun _ hg => operation_filter hg

lemma World.Waiting.finish (h : w.Waiting) (hr : w.running = some (r, true)) :
    w.Effect .finish (w.finish r) := by
  have hremoval {task : Option ℕ} (hcall : r.call = task.map (·, none)) (g : Aggregate)
      (f : ConnectionGateData → ConnectionGateData) (gs : ConnectionGateData → List Aggregate)
      (hf : ∀ d, (f d).Without d (gs d)) : w.Effect .finish ((w.update f).removalDone g task) := by
    have hs := h.removalDone hr hcall g (w.data.map f)
    cases hd : w.data with
    | none => exact .calm ⟨hs, by cases task <;> simp [World.removalDone, World.update, hd] <;> rfl⟩
    | some d =>
      refine .removes d (f d) (gs d) (hf d) hs hd ?_
      cases task <;> simp [World.removalDone, World.update, hd] <;> rfl
  cases r with
  | applying i p revision refreshed next request =>
    have hreturns (v : World) (applied : Option Bool) (ht : v.tasks = w.tasks)
        (hq : v.queue = w.queue) : w.Steady (v.returns i p applied refreshed request) :=
      h.returns (hq ▸ calls_running hr) ht applied refreshed request
    simp only [World.finish]
    split
    · rename_i hrev
      have hplaced (hp : p ≠ .load) : w.replacement .finish = some next := by
        simp [World.replacement, hr, hrev, hp]
      cases p with
      | load => exact .calm ⟨hreturns w _ rfl rfl, rfl⟩
      | reconcile => exact .replaces next (hplaced (by rintro ⟨⟩)) (hreturns _ _ rfl rfl) rfl
      | claim attempt => exact .replaces next (hplaced (by rintro ⟨⟩)) (hreturns _ _ rfl rfl) rfl
      | confirm o error attempt asked =>
        exact .replaces next (hplaced (by rintro ⟨⟩)) (hreturns _ _ rfl rfl) rfl
    · exact .calm ⟨hreturns w _ rfl rfl, rfl⟩
  | upserting g next a =>
    exact .replaces next (by simp [World.replacement, hr]) (h.goesOn hr rfl rfl rfl) rfl
  | removing g task a =>
    obtain ⟨kind, id⟩ := g
    cases kind with
    | device =>
      simp only [World.finish]
      split
      · refine .calm ⟨h.removalDone hr rfl _ w.data, ?_⟩
        cases task <;> rfl
      · split
        · exact .calm ⟨h.goesOn hr rfl rfl rfl, rfl⟩
        · exact hremoval rfl _ _ _ fun d => removeDevice_without d id
    | room => exact hremoval rfl _ _ _ fun d => removeRoom_without d id
  | purging id task a => exact hremoval rfl _ _ _ fun d => removeDevice_without d id

end Mutations

/-! #### All actions -/

section Actions

variable {w w' : World} {a : Action}

lemma World.Waiting.act (h : w.Waiting) (hact : w.act a = some w') : w.Effect a w' := by
  have hsame (v : World) (ht : v.tasks = w.tasks) (hd : v.data = w.data) (hc : v.calls = w.calls) :
      w.Calm v := ⟨h.same ht hc, hd⟩
  cases a with
  | server s =>
    obtain ⟨-, heq⟩ := Option.ite_none_right_eq_some.mp hact
    cases heq
    exact .calm (hsame _ rfl rfl rfl)
  | snapshot r =>
    simp only [World.act] at hact
    split at hact
    · cases hact
      exact .calm (hsame _ rfl rfl rfl)
    · cases hact
  | answer r ok =>
    simp only [World.act] at hact
    split at hact
    · cases hact
      exact .calm (hsame _ rfl rfl rfl)
    · split at hact
      · cases hact
      · cases hact
        exact .calm (hsame _ rfl rfl rfl)
    · cases hact
  | retryLoad =>
    cases hact
    exact .clears rfl h.retryLoad.1 h.retryLoad.2
  | reconcile =>
    cases hact
    exact .calm h.reconcile
  | claimAndConfirm =>
    cases hact
    unfold World.claimAndConfirm
    split
    · exact .calm (hsame w rfl rfl rfl)
    · exact .calm ⟨h.start rfl, rfl⟩
  | claimed i ok =>
    simp only [World.act] at hact
    split at hact
    · rename_i ht
      cases hact
      split
      · exact .calm (h.read (awaitsAt_eq ht) (by rintro _ ⟨⟩))
      · exact .calm (h.calmTask (awaitsAt_eq ht) (by rintro _ ⟨⟩))
    · cases hact
  | disconnect g key retry =>
    cases hact
    exact h.disconnect g key retry
  | disconnected i error =>
    simp only [World.act] at hact
    split at hact
    · rename_i ht
      obtain ⟨-, heq⟩ := Option.ite_none_left_eq_some.mp hact
      cases heq
      exact h.disconnected ht error
    · cases hact
  | event e =>
    obtain ⟨-, heq⟩ := Option.ite_none_left_eq_some.mp hact
    cases heq
    have hn := hsame { w with named := e.gone.toList ++ w.named } rfl rfl rfl
    exact .calm (hn.trans (hn.waiting.reduceLifecycle e))
  | resume i =>
    obtain ⟨t, ht, hres⟩ := Option.bind_eq_some_iff.mp hact
    exact h.resume ht hres
  | timeout i =>
    simp only [World.act] at hact
    split at hact
    · rename_i o error attempt asked revision request ht
      cases hact
      have hp := h.pause (p := .confirm o error attempt asked) (awaitsAt_eq ht) fun o' ho' =>
        (disconnectOf_eq ht).trans ho'
      rcases hp with hc | ⟨o', ho', hf⟩
      · exact .calm hc
      · exact .fails o' (by simp [World.records, ht, ho']) hf
    · cases hact
  | deadline i =>
    simp only [World.act] at hact
    split at hact
    · rename_i ht
      cases hact
      exact .fails _ (by simp [World.records, ht, Purpose.disconnect])
        (h.recordFailure (awaitsAt_eq ht) (disconnectOf_eq ht) _)
    · cases hact
  | mutate =>
    simp only [World.act] at hact
    split at hact
    · rename_i m rest hrun hq
      cases hact
      exact .calm (h.mutate hrun hq)
    · cases hact
  | cached ok =>
    simp only [World.act] at hact
    split at hact
    · rename_i r hr
      split at hact
      · exact .calm (h.cacheWritten hr hact)
      · cases hact
        exact .calm (h.cacheFailed hr)
    · cases hact
  | finish =>
    simp only [World.act] at hact
    split at hact
    · rename_i r hr
      cases hact
      exact h.finish hr
    · cases hact

/-- The time does not matter. -/
lemma World.Effect.tick (h : w.Effect a w') : w.Effect a { w' with time := w'.time + 1 } := by
  have hs {v : World} (hv : v.Steady w') : v.Steady { w' with time := w'.time + 1 } :=
    ⟨⟨hv.waiting.awaits, hv.waiting.distinct⟩, hv.fewer⟩
  cases h with
  | calm h => exact .calm ⟨hs h.toSteady, h.data⟩
  | fails o ho h => exact .fails o ho ⟨hs h.toSteady, h.ended, h.data⟩
  | asks g key retry ha h =>
    exact .asks g key retry ha ⟨⟨h.waiting.awaits, h.waiting.distinct⟩, h.request⟩
  | replaces d hd h data => exact .replaces d hd (hs h) data
  | removes d e gs he h before data => exact .removes d e gs he (hs h) before data
  | clears hc h data => exact .clears hc (hs h) data

lemma World.Waiting.step (h : w.Waiting) (hs : w.step a = some w') : w.Effect a w' := by
  obtain ⟨v, hv, heq⟩ := Option.map_eq_some_iff.mp hs
  cases heq
  exact (h.act hv).tick

end Actions

/-! ### The invariant -/

namespace Attempts

/-- What is kept, and no aggregate has two calls that disconnect it. -/
structure Inv (s : Attempts) : Prop extends Kept s where
  waiting : s.world.Waiting
  unique : ∀ i j o p, s.world.disconnectOf i = some o → s.world.disconnectOf j = some p →
    o.aggregate = p.aggregate → i = j

section Inv

variable {s : Attempts} {w : World} {a : ConnectionGate.Action} {g : Aggregate} {k : ℕ}

/-- A call that was there before has requested nothing. -/
lemma made_eq_none (h : s.world.Steady w) : s.made w = none := by
  unfold made
  split
  · rename_i o asked ht
    obtain ⟨t, ht, -⟩ := Option.bind_eq_some_iff.mp (h.fewer _ o (disconnectOf_eq ht))
    exact absurd (List.getElem?_eq_some_iff.mp ht).1 (Nat.lt_irrefl _)
  · rfl

lemma underwayAfter_sublist (hm : s.made w = none) (late : Bool) :
    (s.underwayAfter w late a).Sublist s.underway := by
  unfold underwayAfter
  split
  · split
    · exact List.Sublist.refl _
    · exact List.filter_sublist
  · simp [hm]

/-- What is known of the keys after a step. -/
lemma keysAfter_eq_some :
    s.keysAfter w g = some k ↔ (w.data = none ∨ w.shown g = true) ∧
      (s.keys g = some k ∨ s.keys g = none ∧ ∃ o, s.made w = some o ∧ o.aggregate = g ∧
        o.idempotencyKey = k) := by
  unfold keysAfter
  cases hd : w.data <;> cases hk : s.keys g <;>
    simp [World.shown, hd, Option.filter_eq_some_iff] <;> grind

variable (h : Inv s)

include h

/-- What is shown of what stays in the state is as it was. -/
lemma Inv.keeps (hs : s.world.Steady w)
    (hsame : ∀ g, w.shown g = true → w.showing g = s.world.showing g)
    (hpresent : ∀ g x, w.showing g = some x → w.shown g = true)
    (hback : ∀ i o, s.world.disconnectOf i = some o → w.shown o.aggregate = true →
      s.world.shown o.aggregate = true)
    (hnone : w.data = none → ∀ g, s.world.showing g = none) (late : Bool) :
    Inv ⟨w, s.keysAfter w, s.underwayAfter w late a⟩ := by
  have hm := made_eq_none hs
  have hsub := underwayAfter_sublist (a := a) hm late
  have hkeys : ∀ g k, s.keysAfter w g = some k ↔
      (w.data = none ∨ w.shown g = true) ∧ s.keys g = some k := by
    simp [keysAfter_eq_some, hm]
  refine ⟨⟨h.single.sublist hsub, fun x hx k hk => ?_, fun g k hk => ?_, fun i o ho hsh => ?_,
    fun g k phase hsh => ?_⟩, hs.waiting, fun i j o p hi hj => ?_⟩
  · exact h.sameKey x (hsub.subset hx) k ((hkeys _ _).mp hk).2
  · obtain ⟨hor, hk⟩ := (hkeys g k).mp hk
    obtain ⟨phase, hphase⟩ := h.visible g k hk
    rcases hor with hd | hsh
    · exact absurd (hphase.symm.trans (hnone hd g)) (Option.some_ne_none _)
    · exact ⟨phase, (hsame g hsh).trans hphase⟩
  · have ho := hs.fewer i o ho
    exact (hsame _ hsh).trans (h.inProgress i o ho (hback i o ho hsh))
  · have hin := hpresent g _ hsh
    obtain ⟨-, hk⟩ := h.present g k phase ((hsame g hin).symm.trans hsh)
    exact ⟨hin, (hkeys g k).mpr ⟨.inr hin, hk⟩⟩
  · exact h.unique i j o p (hs.fewer i o hi) (hs.fewer j p hj)

lemma Inv.calm (hc : s.world.Calm w) (late : Bool) :
    Inv ⟨w, s.keysAfter w, s.underwayAfter w late a⟩ := by
  have hsh : ∀ g, w.shown g = s.world.shown g := fun g => by rw [World.shown, World.shown, hc.data]
  have hshow : ∀ g, w.showing g = s.world.showing g := fun g => by
    rw [World.showing, World.showing, hc.data]
  refine h.keeps hc.toSteady (fun g _ => hshow g) (fun g x hx => ?_) (fun i o _ => ?_)
    (fun hd g => ?_) late
  · rw [hsh]
    exact (h.present g x.1 x.2 ((hshow g).symm.trans hx)).1
  · exact (hsh _ ▸ ·)
  · rw [← hshow, World.showing, hd]
    rfl

lemma Inv.replaces {d : ConnectionGateData} (hs : s.world.Steady w) (hf : s.world.Fits d)
    (hd : w.data = some d) (late : Bool) : Inv ⟨w, s.keysAfter w, s.underwayAfter w late a⟩ := by
  have hsh : ∀ g, w.shown g = d.contains g := fun g => by rw [World.shown, hd]; rfl
  have hshow : ∀ g, w.showing g = (d.operation g).map fun o => (o.idempotencyKey, o.phase) :=
    fun g => by rw [World.showing, hd]; rfl
  refine h.keeps hs (fun g hg => ?_) (fun g x hx => ?_) (fun i o hi hg => ?_) (fun hn => ?_) late
  · rw [hshow]
    exact hf.same g (mem_aggregates.mpr (hsh g ▸ hg))
  · rw [hshow] at hx
    obtain ⟨o, ho, -⟩ := Option.map_eq_some_iff.mp hx
    have hg : o.aggregate = g := by simpa using List.find?_some ho
    rw [hsh, ← hg]
    exact hf.within o (List.mem_of_find?_eq_some ho)
  · obtain ⟨t, ht, ho⟩ := Option.bind_eq_some_iff.mp hi
    exact hf.back t (List.mem_of_getElem? ht) o ho (hsh _ ▸ hg)
  · rw [hd] at hn
    cases hn

/-- What is left after a removal is what was there, with its operations. -/
lemma Inv.removes {d e : ConnectionGateData} {gs : List Aggregate} (he : e.Without d gs)
    (hs : s.world.Steady w) (hbefore : s.world.data = some d) (hd : w.data = some e) (late : Bool) :
    Inv ⟨w, s.keysAfter w, s.underwayAfter w late a⟩ := by
  have hsh : ∀ g, w.shown g = true ↔ s.world.shown g = true ∧ g ∉ gs := fun g => by
    rw [World.shown, World.shown, hd, hbefore]
    exact he.contains g
  have hshow : ∀ g, g ∉ gs → w.showing g = s.world.showing g := fun g hg => by
    rw [World.showing, World.showing, hd, hbefore]
    exact congrArg (Option.map _) (he.operation g hg)
  have hgone : ∀ g x, w.showing g = some x → g ∉ gs := fun g x hx => by
    rw [World.showing, hd] at hx
    obtain ⟨o, ho, -⟩ := Option.map_eq_some_iff.mp hx
    have hg : o.aggregate = g := by simpa using List.find?_some ho
    exact hg ▸ ((he.operations o).mp (List.mem_of_find?_eq_some ho)).2
  refine h.keeps hs (fun g hg => hshow g ((hsh g).mp hg).2) (fun g x hx => ?_)
    (fun i o _ hg => ((hsh _).mp hg).1) (fun hn => ?_) late
  · have hg := hgone g x hx
    exact (hsh g).mpr ⟨(h.present g x.1 x.2 ((hshow g hg).symm.trans hx)).1, hg⟩
  · rw [hd] at hn
    cases hn

lemma Inv.clears (hs : s.world.Steady w) (hd : w.data = none)
    (hnone : ∀ d ∈ s.world.data, d.operations = []) (late : Bool) :
    Inv ⟨w, s.keysAfter w, s.underwayAfter w late a⟩ := by
  have hsh : ∀ g, w.shown g = false := fun g => by rw [World.shown, hd]; rfl
  have hshow : ∀ g, w.showing g = none := fun g => by rw [World.showing, hd]; rfl
  have hbefore : ∀ g, s.world.showing g = none := fun g => by
    rw [World.showing]
    cases hw : s.world.data with
    | none => rfl
    | some d => simp [ConnectionGateData.operation, hnone d hw]
  exact h.keeps hs (fun g _ => (hshow g).trans (hbefore g).symm)
    (fun g x hx => absurd ((hshow g).symm.trans hx) nofun)
    (fun i o _ hg => absurd ((hsh _).symm.trans hg) nofun) (fun _ => hbefore) late

omit h in
lemma operation_setOperation (d : ConnectionGateData) (o : DisconnectOperation) (g : Aggregate) :
    (d.setOperation o).operation g = if o.aggregate = g then some o else d.operation g := by
  unfold ConnectionGateData.setOperation ConnectionGateData.operation
  rw [List.find?_cons, List.find?_filter]
  by_cases hg : o.aggregate = g
  · simp [hg]
  · simp only [hg, decide_false, if_false]
    congr 1
    funext x
    by_cases hx : x.aggregate = g
    · simp [hx, Ne.symm hg]
    · simp [hx]

omit h in
/-- The operation is shown, and what is in the state stays there. -/
lemma shows_setOperation {v : World} {d : ConnectionGateData} {o : DisconnectOperation}
    (hv : v.data = some d) (hd : w.data = some (d.setOperation o)) :
    (∀ g, w.shown g = v.shown g) ∧ ∀ g, w.showing g =
      if o.aggregate = g then some (o.idempotencyKey, o.phase) else v.showing g := by
  constructor
  · intro g
    rw [World.shown, World.shown, hd, hv]
    rfl
  · intro g
    rw [World.showing, World.showing, hd, hv, Option.bind_some, Option.bind_some,
      operation_setOperation]
    split <;> rfl

lemma Inv.fails {o : DisconnectOperation} (hf : s.world.Fails o w)
    (hin : ∀ d ∈ s.world.data, d.contains o.aggregate = true) (late : Bool) :
    Inv ⟨w, s.keysAfter w, s.underwayAfter w late a⟩ := by
  obtain ⟨message, hdata⟩ := hf.data
  cases hd : s.world.data with
  | none => exact h.calm ⟨hf.toSteady, by rw [hdata, hd]; rfl⟩ late
  | some d =>
    obtain ⟨i, hi, hended⟩ := hf.ended
    obtain ⟨hsh, hshow⟩ := shows_setOperation (w := w) hd (by rw [hdata, hd]; rfl)
    have hgin : s.world.shown o.aggregate = true := by
      rw [World.shown, hd]
      exact hin d hd
    have hwas := h.inProgress i o hi hgin
    have hm := made_eq_none hf.toSteady
    have hsub := underwayAfter_sublist (a := a) hm late
    have hkeys : ∀ g k, s.keysAfter w g = some k ↔
        (w.data = none ∨ w.shown g = true) ∧ s.keys g = some k := by
      simp [keysAfter_eq_some, hm]
    refine ⟨⟨h.single.sublist hsub, fun x hx k hk => ?_, fun g k hk => ?_, fun j p hp hg => ?_,
      fun g k phase hg => ?_⟩, hf.waiting, fun j l p q hj hl => ?_⟩
    · exact h.sameKey x (hsub.subset hx) k ((hkeys _ _).mp hk).2
    · obtain ⟨phase, hphase⟩ := h.visible g k ((hkeys g k).mp hk).2
      rw [hshow]
      split
      · rename_i heq
        subst heq
        cases hwas.symm.trans hphase
        exact ⟨_, rfl⟩
      · exact ⟨phase, hphase⟩
    · have hp' := hf.fewer j p hp
      rw [hshow, if_neg fun heq => ?_]
      · exact h.inProgress j p hp' (hsh _ ▸ hg)
      · obtain rfl := h.unique i j o p hi hp' heq
        cases hended.symm.trans hp
    · rw [hshow] at hg
      split at hg
      · rename_i heq
        subst heq
        cases hg
        exact ⟨(hsh _).trans hgin, (hkeys _ _).mpr ⟨.inr ((hsh _).trans hgin),
          (h.present _ _ _ hwas).2⟩⟩
      · obtain ⟨hin, hk⟩ := h.present g k phase hg
        exact ⟨(hsh g).trans hin, (hkeys g k).mpr ⟨.inr ((hsh g).trans hin), hk⟩⟩
    · exact h.unique j l p q (hf.fewer j p hj) (hf.fewer l q hl)

omit h in
lemma disconnectOf_append {v : World} {t : Task} {i : ℕ} {p : DisconnectOperation}
    (ht : w.tasks = v.tasks ++ [t]) (hp : w.disconnectOf i = some p) :
    v.disconnectOf i = some p ∨ i = v.tasks.length ∧ t.disconnect = some p := by
  obtain ⟨t', ht', hp⟩ := Option.bind_eq_some_iff.mp hp
  rw [ht] at ht'
  rcases Nat.lt_or_ge i v.tasks.length with hlt | hge
  · rw [List.getElem?_append_left hlt] at ht'
    exact .inl ((disconnectOf_eq ht').trans hp)
  · obtain ⟨hlt, -⟩ := List.getElem?_eq_some_iff.mp ht'
    obtain rfl : i = v.tasks.length := by
      simp only [List.length_append, List.length_singleton] at hlt
      omega
    rw [List.getElem?_concat_length] at ht'
    cases ht'
    exact .inr ⟨rfl, hp⟩

/-- Nothing is in progress where a request can be made: it would be shown. -/
lemma Inv.quiet {d : ConnectionGateData} {retry : Bool} (hd : s.world.data = some d)
    (ha : d.asks g retry = true) (hin : d.contains g = true) {i : ℕ} {p : DisconnectOperation}
    (hp : s.world.disconnectOf i = some p) : p.aggregate ≠ g := by
  rintro rfl
  have hshown : s.world.shown p.aggregate = true := by
    rw [World.shown, hd]
    exact hin
  have hprogress := h.inProgress i p hp hshown
  rw [World.showing, hd] at hprogress
  obtain ⟨q, hq, heq⟩ := Option.map_eq_some_iff.mp hprogress
  have hq : d.operation p.aggregate = some q := hq
  simp [ConnectionGateData.asks, hq, (Prod.mk.inj heq).2] at ha

/-- A request is made for what no call disconnects, with the key of the first one. -/
lemma Inv.asks {key : ℕ} {retry late : Bool} (ha : s.world.Asks g retry w)
    (hok : s.Orderly (.disconnect g key retry)) :
    Inv ⟨w, s.keysAfter w, s.underwayAfter w late (.disconnect g key retry)⟩ := by
  obtain ⟨d, o, asked, hd, hasks, rfl, hphase, hkey, hdata, htasks⟩ := ha.request
  obtain ⟨hin, hawaited⟩ := hok.asking _ key retry rfl d hd hasks
  obtain ⟨hsh, hshow⟩ := shows_setOperation hd hdata
  rw [hphase] at hshow
  have hgin : s.world.shown o.aggregate = true := by
    rw [World.shown, hd]
    exact hin
  have hquiet : ∀ i p, s.world.disconnectOf i = some p → p.aggregate ≠ o.aggregate :=
    fun i p => h.quiet hd hasks hin
  have hfree : ∀ x ∈ s.underway, x.2.aggregate ≠ o.aggregate := by
    intro x hx hxo
    obtain ⟨asked, hx⟩ := hawaited x hx hxo
    exact hquiet x.1 x.2 (disconnectOf_eq hx) hxo
  have hfirst : ∀ k, s.keys o.aggregate = some k → o.idempotencyKey = k := by
    intro k hk
    obtain ⟨phase, hphase⟩ := h.visible _ k hk
    rw [World.showing, hd] at hphase
    obtain ⟨q, hq, heq⟩ := Option.map_eq_some_iff.mp hphase
    exact (hkey q hq).symm.trans (Prod.mk.inj heq).1
  have hm : s.made w = some o := by
    simp [made, htasks]
  have hother : ∀ g k, g ≠ o.aggregate → (s.keysAfter w g = some k ↔
      (w.data = none ∨ w.shown g = true) ∧ s.keys g = some k) := by
    intro g k hne
    simp [keysAfter_eq_some, hm, Ne.symm hne]
  have hown : s.keysAfter w o.aggregate = some o.idempotencyKey := by
    refine keysAfter_eq_some.mpr ⟨.inr ((hsh _).trans hgin), ?_⟩
    cases hk : s.keys o.aggregate with
    | none => exact .inr ⟨rfl, o, hm, rfl, rfl⟩
    | some k => exact .inl (congrArg some (hfirst k hk).symm)
  have hunderway : s.underwayAfter w late (.disconnect o.aggregate key retry) =
      s.underway ++ [(s.world.tasks.length, o)] := by
    simp [underwayAfter, hm]
  refine ⟨⟨?_, fun x hx k hk => ?_, fun g k hk => ?_, fun i p hp hg => ?_, fun g k phase hg => ?_⟩,
    ha.waiting, fun i j p q hi hj heq => ?_⟩
  · rw [hunderway, List.pairwise_append]
    refine ⟨h.single, List.pairwise_singleton _ _, fun x hx y hy => ?_⟩
    obtain rfl := List.mem_singleton.mp hy
    exact hfree x hx
  · rw [hunderway] at hx
    rcases List.mem_append.mp hx with hx | hx
    · exact h.sameKey x hx k ((hother _ k (hfree x hx)).mp hk).2
    · obtain rfl := List.mem_singleton.mp hx
      exact Option.some.inj (hown.symm.trans hk)
  · rw [hshow]
    split
    · rename_i heq
      subst heq
      cases hown.symm.trans hk
      exact ⟨_, rfl⟩
    · rename_i hne
      exact h.visible g k ((hother g k (Ne.symm hne)).mp hk).2
  · rw [hshow]
    rcases disconnectOf_append htasks hp with hp | ⟨-, hp⟩
    · rw [if_neg (hquiet i p hp).symm]
      exact h.inProgress i p hp (hsh _ ▸ hg)
    · cases hp
      exact if_pos rfl
  · rw [hshow] at hg
    split at hg
    · rename_i heq
      subst heq
      cases hg
      exact ⟨(hsh _).trans hgin, hown⟩
    · rename_i hne
      obtain ⟨hg, hk⟩ := h.present g k phase hg
      exact ⟨(hsh g).trans hg, (hother g k (Ne.symm hne)).mpr ⟨.inr ((hsh g).trans hg), hk⟩⟩
  · rcases disconnectOf_append htasks hi with hold | ⟨hnew, hp⟩
    · rcases disconnectOf_append htasks hj with hold' | ⟨-, hq⟩
      · exact h.unique i j p q hold hold' heq
      · cases hq
        exact absurd heq (hquiet i p hold)
    · cases hp
      rcases disconnectOf_append htasks hj with hold' | ⟨hnew', -⟩
      · exact absurd heq.symm (hquiet j q hold')
      · exact hnew.trans hnew'.symm

/-- A request that is not awaited comes to its end. -/
lemma Inv.settled (i : ℕ) : Inv { s with underway := s.settle i } :=
  ⟨⟨h.single.sublist List.filter_sublist, fun x hx => h.sameKey x (List.mem_filter.mp hx).1,
    h.visible, h.inProgress, h.present⟩, h.waiting, h.unique⟩

end Inv

lemma Inv.step {s s' : Attempts} {a : Attempts.Action} (h : Inv s) (hok : s.Allowed a)
    (hs : s.step a = some s') : Inv s' := by
  cases a with
  | act a late =>
    obtain ⟨w, hw, heq⟩ := Option.map_eq_some_iff.mp hs
    cases heq
    cases h.waiting.step hw with
    | calm hc => exact h.calm hc late
    | fails o ho hf => exact h.fails hf (hok.failing o ho) late
    | asks g key retry ha hasks =>
      subst ha
      exact h.asks hasks hok
    | replaces d hd hsteady hdata => exact h.replaces hsteady (hok.replacing d hd) hdata late
    | removes d e gs he hsteady hbefore hdata => exact h.removes he hsteady hbefore hdata late
    | clears hc hsteady hdata => exact h.clears hsteady hdata (hok.clearing hc) late
  | settled i =>
    simp only [Attempts.step] at hs
    split at hs
    · cases hs
    · cases hs
      exact h.settled i

lemma Inv.initial (server : Summary) (cache : DisplayCache) (named : List Aggregate) :
    Inv (.initial server cache named) := by
  have hidle : ∀ i, (World.initial server cache named).disconnectOf i = none := by
    rintro (_ | i) <;> rfl
  exact ⟨⟨List.Pairwise.nil, nofun, nofun, fun i o ho => absurd ((hidle i).symm.trans ho) nofun,
      nofun⟩,
    ⟨nofun, List.Pairwise.nil⟩, fun i j o p hi => absurd ((hidle i).symm.trans hi) nofun⟩

end Attempts

/-! ### Runs -/

namespace Attempts

instance (w : World) (d : ConnectionGateData) : Decidable (w.Fits d) :=
  decidable_of_iff
    ((∀ g ∈ d.aggregates,
        (d.operation g).map (fun o => (o.idempotencyKey, o.phase)) = w.showing g) ∧
      (∀ o ∈ d.operations, d.contains o.aggregate = true) ∧
      ∀ t ∈ w.tasks, ∀ o ∈ t.disconnect, d.contains o.aggregate = true →
        w.shown o.aggregate = true)
    ⟨fun ⟨h₁, h₂, h₃⟩ => ⟨h₁, h₂, h₃⟩, fun h => ⟨h.same, h.within, h.back⟩⟩

/-- The aggregate and the way in which it is asked for. -/
def asked : ConnectionGate.Action → Option (Aggregate × Bool)
  | .disconnect g _ retry => some (g, retry)
  | _ => none

/-- The call awaits the answer to the request. -/
def awaited (s : Attempts) (x : ℕ × DisconnectOperation) : Bool :=
  match s.world.tasks[x.1]? with
  | some (.requesting o _) => o = x.2
  | _ => false

lemma awaited_iff {s : Attempts} {x : ℕ × DisconnectOperation} :
    s.awaited x = true ↔ ∃ asked, s.world.tasks[x.1]? = some (.requesting x.2 asked) := by
  unfold awaited
  split
  · rename_i o asked ht
    simp [ht]
  · rename_i hno
    refine ⟨nofun, ?_⟩
    rintro ⟨asked, ht⟩
    exact absurd ht (hno _ _)

instance (s : Attempts) (a : ConnectionGate.Action) : Decidable (s.Orderly a) :=
  decidable_of_iff
    ((∀ x ∈ asked a, ∀ d ∈ s.world.data, d.asks x.1 x.2 = true →
        d.contains x.1 = true ∧ ∀ y ∈ s.underway, y.2.aggregate = x.1 → s.awaited y = true) ∧
      (∀ o ∈ s.world.records a, ∀ d ∈ s.world.data, d.contains o.aggregate = true) ∧
      (∀ d ∈ s.world.replacement a, s.world.Fits d) ∧
      (s.world.clears a = true → ∀ d ∈ s.world.data, d.operations = []))
    ⟨fun ⟨h₁, h₂, h₃, h₄⟩ => by
        refine ⟨?_, h₂, h₃, h₄⟩
        rintro g key retry rfl d hd hasks
        obtain ⟨hin, hall⟩ := h₁ (g, retry) rfl d hd hasks
        exact ⟨hin, fun y hy hyg => awaited_iff.mp (hall y hy hyg)⟩,
      fun h => by
        refine ⟨fun x hx d hd hasks => ?_, h.failing, h.replacing, h.clearing⟩
        cases a with
        | disconnect g key retry =>
          cases hx
          obtain ⟨hin, hall⟩ := h.asking g key retry rfl d hd hasks
          exact ⟨hin, fun y hy hyg => awaited_iff.mpr (hall y hy hyg)⟩
        | _ => cases hx⟩

instance (s : Attempts) (a : Attempts.Action) : Decidable (s.Allowed a) := by
  unfold Allowed
  split <;> infer_instance

end Attempts

/-- The first load, and requests to disconnect two rooms, of which one is carried out. -/
def bothAsked : List ConnectionGate.Action :=
  [.snapshot 0, .answer 0 true, .resume 0, .mutate, .cached true, .finish, .resume 0,
    .disconnect (.room, 10) 5 false, .disconnect (.room, 11) 6 false,
    .server ⟨[sampleDevice], [sampleRoom 11]⟩]

/-- Steps after which no request goes on that is not awaited. -/
def punctual (as : List ConnectionGate.Action) : List Attempts.Action := as.map (.act · false)

def roomAnswered : List Attempts.Action :=
  punctual (bothAsked ++ [.disconnected 1 none, .mutate, .cached true, .finish])

/-- One disconnect has timed out and is confirmed while another is in progress. -/
def oneConfirmed : List Attempts.Action :=
  punctual (bothAsked ++ [.disconnected 1 (some ⟨false, true⟩), .snapshot 1, .answer 1 true,
    .resume 1, .mutate, .cached true, .finish])

end MouseKeeper.Mobile.ConnectionGate
