import MouseKeeper.Desktop.Transport

/-!
When the network only delays the work of the desktop.

An error of the network is a text like any other by the time the work decides to fail. The lookup
of the room fails every kind of work, and a command is also failed by the report that it has
arrived. Everywhere else the work is taken up again, or is on the server already.
-/

namespace MouseKeeper.Desktop.Transport

open MouseKeeper.Machine MouseKeeper.Faults MouseKeeper.Server
open MouseKeeper.Faults.System (Impatient GivesUp Traceless Patient)
open Commands (AgentCommand AgentProposalItem)
open RemoteView (AgentFileTransferFailureCode TransferSourceValidationError
  ValidatedTransferSource)

/-! ### The condition -/

/-- The work ends without a report if the request is lost. -/
def patient : Request → Fault → Prop
  | .updateCommandStatus _, _ | .rooms, _ => False
  | .uploadTarget _, f => uploadTargetFailureCode f.error.message = none
  | _, _ => True

instance : ∀ r f, Decidable (patient r f)
  | .updateCommandStatus _, _ | .rooms, _ => .isFalse id
  | .uploadTarget _, f => inferInstanceAs (Decidable (uploadTargetFailureCode f.error.message = none))
  | .pending, _ | .createExecution, _ | .put _, _ | .completeUpload _ _, _ | .failTransfer _, _ =>
    .isTrue trivial

/-- The server does not list the work any more. -/
def Gone (s : ServerState) : Prop :=
  match s.record with
  | .command status _ => Commands.isProcessableCommandStatus status = false
  | .decision execution => execution.isSome = true
  | .transfer t => t.status ≠ .requested

instance : DecidablePred Gone := fun s => by unfold Gone; split <;> infer_instance

/-- The report makes no difference any more. -/
def Settled : Report → ServerState → Prop
  | .command .failed, s => ∃ status proposal, s.record = .command status proposal ∧
      transitions status = []
  | .command .succeeded, _ => True
  | .command (.proposal _), s => ∃ status proposal, s.record = .command status proposal ∧
      Commands.isProcessableCommandStatus status = false
  | .execution _ _, s => ∃ e, s.record = .decision (some e) ∧ e.status ≠ .executing
  | .transferCompletion _ _, s => ∃ t, s.record = .transfer t ∧ t.status ≠ .requested ∧
      t.status ≠ .uploading

variable {Θ : Type} {engine : FileEngine Θ} {job : Job}

/-! ### The calls -/

lemma system_serve {r : Request} {s : ServerState} :
    (system engine job).serve r s = s.serve job r := rfl

section Calls

variable {r : Report} {roomId : String}

lemma impatient_enqueue {next : Except String Unit → Async Θ}
    (h : ∀ a, Impatient patient (next a)) : Impatient patient (enqueue r next) := by
  intro x
  dsimp only
  split
  · exact h _
  · exact h _

lemma givesUp_enqueue {next : Except String Unit → Async Θ}
    (h : ∀ a, GivesUp (system engine job) patient (next a)) :
    GivesUp (system engine job) patient (enqueue r next) := by
  intro x
  dsimp only
  split
  · exact h _
  · exact h _

lemma impatient_tryReport {r : Commands.Report} : Impatient patient (tryReport r : Async Θ) :=
  impatient_enqueue fun _ => trivial

/-- The lookup asks for the rooms, reads the registry and may change it. -/
lemma of_managedRoot {P Q : Async Θ → Prop} {next : Except String ManagedRoot → Async Θ}
    (hread : ∀ next, (∀ x, P (next x)) → P (.read next))
    (hwrite : ∀ change next, (∀ x, Q (next x)) → P (.write change next))
    (hask : ∀ next, (∀ a, P (next a)) → P (.ask .rooms next)) (hP : ∀ a, P (next a))
    (hQ : ∀ a, Q (next a)) : P (managedRoot roomId next) := by
  have hbinding (rootId : String) {bound : Except String ManagedRoot → Async Θ}
      (hP : ∀ a, P (bound a)) (hQ : ∀ a, Q (bound a)) :
      P (ensureActiveRoomBinding rootId roomId bound) := by
    refine hread _ fun x => ?_
    split
    · exact hP _
    · exact hwrite _ _ fun x => hQ _
    · exact hP _
  refine hask _ fun answer => ?_
  split
  · split
    · refine hbinding _ (fun a => ?_) fun a => ?_
      all_goals
        cases a with
        | error error => first | exact hP _ | exact hQ _
        | ok root =>
          dsimp only
          split <;> first | exact hP _ | exact hQ _
    · exact hP _
  · exact hP _
  · exact hP _

lemma impatient_managedRoot {next : Except String ManagedRoot → Async Θ}
    (h : ∀ a, Impatient patient (next a)) : Impatient patient (managedRoot roomId next) :=
  of_managedRoot (fun _ h => h) (fun _ _ h => h) (fun _ h => ⟨fun _ => id, h⟩) h h

lemma traceless_managedRoot {next : Except String ManagedRoot → Async Θ}
    (h : ∀ a, Traceless (system engine job) patient Gone (next a))
    (h' : ∀ a, GivesUp (system engine job) patient (next a)) :
    Traceless (system engine job) patient Gone (managedRoot roomId next) :=
  of_managedRoot (fun _ h => h) (fun _ _ h => h)
    (fun _ h => ⟨fun _ => False.elim, fun _ => .inl ⟨rfl, h _⟩⟩) h h'

/-- The status of a command is reported without patience. -/
lemma impatient_claim {status : CommandStatus} {next : Except String Unit → Async Θ}
    (h : ∀ a, Impatient patient (next a)) :
    Impatient patient (claimCommandForAnalysis status next) := by
  unfold claimCommandForAnalysis
  split
  · refine ⟨fun _ => id, fun answer => ?_⟩
    cases answer with
    | ok _ => exact ⟨fun _ => id, fun _ => h _⟩
    | error error => exact h _
  · exact ⟨fun _ => id, fun _ => h _⟩
  · exact h _
  · exact h _

lemma impatient_processCommand {c : AgentCommand} :
    Impatient patient (processCommand engine c) := by
  unfold processCommand
  split_ifs
  · trivial
  · refine impatient_claim fun a => ?_
    split
    · exact impatient_tryReport
    · trivial
  · trivial
  · unfold processSupported
    split
    · exact impatient_tryReport
    refine impatient_claim fun a => ?_
    split
    · exact impatient_tryReport
    refine impatient_managedRoot fun root => ?_
    split
    · exact impatient_tryReport
    split_ifs
    · exact impatient_tryReport
    intro x
    dsimp only
    split
    · exact impatient_tryReport
    split_ifs
    · exact impatient_tryReport
    refine impatient_enqueue fun a => ?_
    split
    · trivial
    · exact impatient_tryReport

/-- What follows the creation of an execution. -/
lemma impatient_execute {items : List AgentProposalItem} :
    Impatient patient (managedRoot roomId fun
      | .error error => enqueue (.execution .failed error) fun _ => .done
      | .ok root => .write (fun x => { x with files := (engine.execute x.files root items).2 })
        fun x =>
          match (engine.execute x.files root items).1 with
          | .ok (status, summary) => enqueue (.execution status summary) fun _ => .done
          | .error error => enqueue (.execution .failed error) fun _ => .done) := by
  refine impatient_managedRoot fun root => ?_
  split
  · exact impatient_enqueue fun _ => trivial
  intro x
  dsimp only
  split
  · exact impatient_enqueue fun _ => trivial
  · exact impatient_enqueue fun _ => trivial

/-- A decision is claimed, or there is nothing to claim. -/
lemma traceless_processDecision {items : List AgentProposalItem} :
    Traceless (system engine job) patient Gone (processDecision engine roomId items) := by
  refine ⟨fun f _ => rfl, fun s => ?_⟩
  rw [system_serve]
  dsimp only [ServerState.serve]
  split
  · split
    · exact .inr (.inl ⟨rfl, impatient_execute.givesUp⟩)
    · exact .inl ⟨rfl, trivial⟩
  · next e he =>
    split
    · refine .inr (.inl ⟨?_, impatient_execute.givesUp⟩)
      rw [Gone, he]
      rfl
    · exact .inl ⟨rfl, trivial⟩
  · exact .inl ⟨rfl, trivial⟩

lemma traceless_failFileTransfer {code : AgentFileTransferFailureCode} :
    Traceless (system engine job) patient Gone (failFileTransfer code) := by
  refine ⟨fun f _ => rfl, fun s => ?_⟩
  rw [system_serve]
  dsimp only [ServerState.serve]
  split
  · split
    · split
      · exact .inl ⟨rfl, trivial⟩
      split
      · exact .inr (.inl ⟨nofun, trivial⟩)
      · exact .inl ⟨rfl, trivial⟩
    · exact .inl ⟨rfl, trivial⟩
  · exact .inl ⟨rfl, trivial⟩

lemma givesUp_failFileTransfer {code : AgentFileTransferFailureCode} :
    GivesUp (system engine job) patient (failFileTransfer code) := ⟨fun _ _ => rfl, fun _ => trivial⟩

lemma givesUp_orSourceChanged {α : Type} {check : Θ → Except String α} {next : α → Async Θ}
    (h : ∀ a, GivesUp (system engine job) patient (next a)) :
    GivesUp (system engine job) patient (orSourceChanged check next) := by
  intro x
  dsimp only
  split
  · exact h _
  · exact givesUp_failFileTransfer

lemma givesUp_uploadPreparedTransfer {source : ValidatedTransferSource} :
    GivesUp (system engine job) patient (uploadPreparedTransfer engine source) := by
  refine givesUp_orSourceChanged fun _ => givesUp_orSourceChanged fun payload =>
    givesUp_orSourceChanged fun _ x => ?_
  dsimp only
  split
  · trivial
  refine ⟨fun _ _ => rfl, fun answer => ?_⟩
  cases answer with
  | error error => trivial
  | ok _ =>
    refine givesUp_orSourceChanged fun _ => givesUp_enqueue fun stored => ?_
    split
    · trivial
    · exact ⟨fun _ _ => rfl, fun _ => trivial⟩

lemma traceless_uploadTargetRefused {error : AgentError} :
    Traceless (system engine job) patient Gone (uploadTargetRefused error) := by
  unfold uploadTargetRefused
  split
  · exact traceless_failFileTransfer
  · trivial

lemma givesUp_uploadTargetRefused {error : AgentError} :
    GivesUp (system engine job) patient (uploadTargetRefused error) := by
  unfold uploadTargetRefused
  split
  · exact givesUp_failFileTransfer
  · trivial

lemma uploadTargetRefused_of_patient {n : ℕ} {f : Fault} (hf : patient (.uploadTarget n) f) :
    (uploadTargetRefused f.error : Async Θ) = .done := by
  have hnone : uploadTargetFailureCode f.error.message = none := hf
  rw [uploadTargetRefused, hnone]

/-- The upload target is asked for, which takes the transfer off the list. -/
lemma traceless_uploadTarget {source : ValidatedTransferSource} :
    Traceless (system engine job) patient Gone
      (send (.uploadTarget source.sourceVersion.sizeBytes) fun
        | .ok _ => uploadPreparedTransfer engine source
        | .error error => uploadTargetRefused error) := by
  refine ⟨fun f hf => uploadTargetRefused_of_patient hf, fun s => ?_⟩
  rw [system_serve]
  dsimp only [ServerState.serve]
  split
  · split
    · exact .inl ⟨rfl, traceless_uploadTargetRefused⟩
    split
    · exact .inr (.inl ⟨nofun, givesUp_uploadPreparedTransfer⟩)
    · exact .inl ⟨rfl, traceless_uploadTargetRefused⟩
  · exact .inl ⟨rfl, traceless_uploadTargetRefused⟩

lemma givesUp_uploadTarget {source : ValidatedTransferSource} :
    GivesUp (system engine job) patient
      (send (.uploadTarget source.sourceVersion.sizeBytes) fun
        | .ok _ => uploadPreparedTransfer engine source
        | .error error => uploadTargetRefused error) := by
  refine ⟨fun f hf => uploadTargetRefused_of_patient hf, fun answer => ?_⟩
  cases answer with
  | ok _ => exact givesUp_uploadPreparedTransfer
  | error error => exact givesUp_uploadTargetRefused

lemma traceless_processOneTransfer {sourceRelativePath : String} :
    Traceless (system engine job) patient Gone
      (processOneTransfer engine roomId sourceRelativePath) := by
  unfold processOneTransfer validateTransferSourceForRequest
  refine traceless_managedRoot (fun root => ?_) fun root => ?_
  · cases root with
    | error message => exact traceless_failFileTransfer
    | ok root =>
      intro x
      dsimp only
      split
      · exact traceless_failFileTransfer
      · exact traceless_uploadTarget
  · cases root with
    | error message => exact givesUp_failFileTransfer
    | ok root =>
      intro x
      dsimp only
      split
      · exact givesUp_failFileTransfer
      · exact givesUp_uploadTarget

lemma traceless_processPending :
    Traceless (system engine job) patient Gone (processPending engine job) := by
  refine ⟨fun f _ => rfl, fun s => .inl ⟨rfl, ?_⟩⟩
  generalize ((system engine job).serve .pending s).1 = answer
  cases answer with
  | error error => trivial
  | ok reply =>
    cases reply with
    | notPending | rooms | done => trivial
    | command status =>
      cases job with
      | command c => exact impatient_processCommand.traceless
      | decision roomId items => trivial
      | transfer roomId sourceRelativePath maxBytes => trivial
    | pending =>
      cases job with
      | command c => trivial
      | decision roomId items => exact traceless_processDecision
      | transfer roomId sourceRelativePath maxBytes => exact traceless_processOneTransfer

end Calls

/-! ### The server -/

section Server

variable {s : ServerState}

/-- Work that is gone is not listed. -/
lemma pending_of_gone (h : Gone s) :
    s.pending job = .ok .notPending ∨ ∃ error, s.pending job = .error error := by
  unfold ServerState.pending
  split
  · left
    unfold Gone at h
    split at h
    · next status proposal hr =>
      simp [hr, h]
    · next execution hr =>
      cases execution with
      | none => cases h
      | some e => simp [hr]
    · next t hr =>
      simp [hr, h]
  · exact .inr ⟨_, rfl⟩

/-- How the record of a piece of work goes on. -/
inductive Advance : Record → Record → Prop
  | refl {record : Record} : Advance record record
  | command {a b : CommandStatus} {p : Option (List AgentProposalItem)} (h : canTransition a b) :
    Advance (.command a p) (.command b p)
  | proposal {items : List AgentProposalItem} :
    Advance (.command .analyzing none) (.command .waitingApproval (some items))
  | claim {e : Execution} : Advance (.decision none) (.decision (some e))
  | result {e e' : Execution} (h : e'.status ≠ .executing) :
    Advance (.decision (some e)) (.decision (some e'))
  | transfer {t t' : Transfer} (h : t.status ≠ .requested → t'.status ≠ .requested)
      (h' : t.status ≠ .requested ∧ t.status ≠ .uploading →
        t'.status ≠ .requested ∧ t'.status ≠ .uploading) :
    Advance (.transfer t) (.transfer t')

lemma not_processable_of_canTransition {a b : CommandStatus} (h : canTransition a b)
    (ha : Commands.isProcessableCommandStatus a = false) :
    Commands.isProcessableCommandStatus b = false := by
  revert h ha
  cases a <;> cases b <;> decide

lemma Gone.advance {s' : ServerState} (h : Gone s) (ha : Advance s.record s'.record) : Gone s' := by
  unfold Gone at h ⊢
  generalize s.record = x at h ha
  generalize s'.record = y at ha ⊢
  cases ha with
  | refl => exact h
  | command hab => exact not_processable_of_canTransition hab h
  | proposal => rfl
  | claim => rfl
  | result => rfl
  | transfer h' => exact h' h

lemma Settled.advance {k : Report} {s' : ServerState} (h : Settled k s)
    (ha : Advance s.record s'.record) : Settled k s' := by
  cases k with
  | command r =>
    cases r with
    | failed =>
      obtain ⟨status, proposal, hr, hend⟩ := h
      rw [hr] at ha
      generalize hs : s'.record = y at ha
      cases ha with
      | refl => exact ⟨status, proposal, hs, hend⟩
      | command hab =>
        rw [canTransition, hend] at hab
        cases hab
      | proposal => cases hend
    | succeeded => trivial
    | proposal items =>
      obtain ⟨status, proposal, hr, hend⟩ := h
      rw [hr] at ha
      generalize hs : s'.record = y at ha
      cases ha with
      | refl => exact ⟨status, proposal, hs, hend⟩
      | command hab => exact ⟨_, _, hs, not_processable_of_canTransition hab hend⟩
      | proposal => cases hend
  | execution status summary =>
    obtain ⟨e, hr, hend⟩ := h
    rw [hr] at ha
    generalize hs : s'.record = y at ha
    cases ha with
    | refl => exact ⟨e, hs, hend⟩
    | result hend' => exact ⟨_, hs, hend'⟩
  | transferCompletion sizeBytes sha256 =>
    obtain ⟨t, hr, hend⟩ := h
    rw [hr] at ha
    generalize hs : s'.record = y at ha
    cases ha with
    | refl => exact ⟨t, hs, hend⟩
    | transfer _ h' => exact ⟨_, hs, h' hend⟩

lemma serve_advance (r : Request) : Advance s.record (s.serve job r).2.record := by
  cases r with
  | pending | rooms => exact .refl
  | updateCommandStatus status =>
    dsimp only [ServerState.serve]
    split
    · next current proposal hr =>
      split
      · next h =>
        rw [hr]
        exact .command h.2.2
      · exact .refl
    · exact .refl
  | createExecution =>
    dsimp only [ServerState.serve]
    split
    · next hr =>
      split
      · rw [hr]
        exact .claim
      · exact .refl
    · split <;> exact .refl
    · exact .refl
  | uploadTarget sizeBytes =>
    dsimp only [ServerState.serve]
    split
    · next t hr =>
      split
      · exact .refl
      split
      · next h =>
        rw [hr]
        exact .transfer (fun _ => nofun) fun h' => absurd h.2.2.1 h'.1
      · exact .refl
    · exact .refl
  | put length =>
    dsimp only [ServerState.serve]
    split
    · next t hr =>
      split
      · rw [hr]
        exact .transfer id id
      · exact .refl
    · exact .refl
  | completeUpload sizeBytes sha256 =>
    dsimp only [ServerState.serve]
    split
    · next t hr =>
      split
      · split <;> exact .refl
      split
      · rw [hr]
        exact .transfer (fun _ => nofun) fun _ => ⟨nofun, nofun⟩
      · exact .refl
    · exact .refl
  | failTransfer code =>
    dsimp only [ServerState.serve]
    split
    · next t hr =>
      split
      · split
        · exact .refl
        split
        · rw [hr]
          exact .transfer (fun _ => nofun) fun _ => ⟨nofun, nofun⟩
        · exact .refl
      · exact .refl
    · exact .refl

lemma result_ne_executing (o : Executions.Outcome) : o.toStatus ≠ .executing := by
  cases o <;> nofun

lemma deliver_advance (k : Report) : Advance s.record (s.deliver job k).record := by
  cases k with
  | command r =>
    cases r with
    | failed => exact serve_advance _
    | succeeded => exact .refl
    | proposal items =>
      dsimp only [ServerState.deliver]
      split
      · next hr =>
        split
        · rw [hr]
          exact .proposal
        · exact .refl
      · exact .refl
  | execution status summary =>
    dsimp only [ServerState.deliver]
    split
    · next e hr =>
      split
      · rw [hr]
        exact .result (result_ne_executing status)
      · exact .refl
    · exact .refl
  | transferCompletion sizeBytes sha256 => exact serve_advance _

lemma setTransferStatus_advance {ok : Storage.TransferStatus → Bool}
    {status : Storage.TransferStatus} (h : status ≠ .requested) (h' : status ≠ .uploading) :
    Advance s.record (s.setTransferStatus ok status).record := by
  unfold ServerState.setTransferStatus
  split
  · next t hr =>
    split
    · rw [hr]
      exact .transfer (fun _ => h) fun _ => ⟨h, h'⟩
    · exact .refl
  · exact .refl

lemma outside_advance (o : Outside Θ) : Advance s.record (o.server s).record := by
  cases o with
  | world x | rooms rooms | device active => exact .refl
  | advanceCommand status =>
    dsimp only [Outside.server]
    split
    · next current proposal hr =>
      split
      · next h =>
        rw [hr]
        exact .command h.2
      · exact .refl
    · exact .refl
  | expire =>
    dsimp only [Outside.server]
    split
    · next t hr =>
      rw [hr]
      exact .transfer id id
    · exact .refl
  | expireTransfer => exact setTransferStatus_advance nofun nofun
  | cancelTransfer => exact setTransferStatus_advance nofun nofun
  | ackTransfer => exact setTransferStatus_advance nofun nofun

/-- A report makes a difference once. -/
lemma deliver_settles (k : Report) : s.deliver job k = s ∨ Settled k (s.deliver job k) := by
  cases k with
  | command r =>
    cases r with
    | failed =>
      dsimp only [ServerState.deliver, ServerState.serve]
      split
      · split
        · exact .inr ⟨_, _, rfl, rfl⟩
        · exact .inl rfl
      · exact .inl rfl
    | succeeded => exact .inl rfl
    | proposal items =>
      dsimp only [ServerState.deliver]
      split
      · split
        · exact .inr ⟨_, _, rfl, rfl⟩
        · exact .inl rfl
      · exact .inl rfl
  | execution status summary =>
    dsimp only [ServerState.deliver]
    split
    · split
      · exact .inr ⟨_, rfl, result_ne_executing status⟩
      · exact .inl rfl
    · exact .inl rfl
  | transferCompletion sizeBytes sha256 =>
    dsimp only [ServerState.deliver, ServerState.serve]
    split
    · split
      · split <;> exact .inl rfl
      split
      · exact .inr ⟨_, rfl, nofun, nofun⟩
      · exact .inl rfl
    · exact .inl rfl

lemma deliver_settled {k : Report} (h : Settled k s) : s.deliver job k = s := by
  cases k with
  | command r =>
    cases r with
    | failed =>
      obtain ⟨status, proposal, hr, hend⟩ := h
      have hnot (b : CommandStatus) : canTransition status b = false := by
        rw [canTransition, hend]
        rfl
      simp only [ServerState.deliver, ServerState.serve, hr, hnot, Bool.false_eq_true, and_false,
        if_false]
    | succeeded => rfl
    | proposal items =>
      obtain ⟨status, proposal, hr, hend⟩ := h
      dsimp only [ServerState.deliver]
      split
      · next hr' =>
        cases hr.symm.trans hr'
        cases hend
      · rfl
  | execution status summary =>
    obtain ⟨e, hr, hend⟩ := h
    simp only [ServerState.deliver, hr, hend, and_false, if_false]
  | transferCompletion sizeBytes sha256 =>
    obtain ⟨t, hr, -, hend⟩ := h
    simp only [ServerState.deliver, ServerState.serve, hr, hend, false_and, and_false, if_false]
    split
    · split <;> rfl
    · rfl

end Server

/-! ### Runs -/

lemma apply_server (o : Outside Θ) (x : World Θ) (s : ServerState) :
    (o.apply (x, s)).2 = o.server s := by
  cases o <;> rfl

lemma patient_system : Patient (system engine job) patient Gone Settled where
  traceless := traceless_processPending
  rests := by
    refine ⟨.pending, _, rfl, fun s hs => ⟨rfl, ?_⟩⟩
    rw [system_serve]
    dsimp only [ServerState.serve]
    have hp : s.pending job = .ok .notPending ∨ ∃ error, s.pending job = .error error :=
      pending_of_gone hs
    rcases hp with hp | ⟨error, hp⟩
    · rw [hp]
    · rw [hp]
  gone_outside o x s h := by
    change Gone (o.apply (x, s)).2
    rw [apply_server]
    exact h.advance (outside_advance o)
  gone_serve r s h := h.advance (serve_advance r)
  gone_deliver k s h := h.advance (deliver_advance k)
  settles k s := deliver_settles k
  settled k s h := deliver_settled h
  settled_outside k o x s h := by
    change Settled k (o.apply (x, s)).2
    rw [apply_server]
    exact h.advance (outside_advance o)
  settled_serve k r s h := h.advance (serve_advance r)
  settled_deliver k k' s h := h.advance (deliver_advance k')

/-- **Transport faults only delay**: in every run that loses no report of a command's status and no
lookup of a room, and no request of work that has bound its root and is still listed, the server and
the outbox have what a run without faults could have given them, with the same things happening
outside. -/
theorem transport_faults_only_delay {x : World Θ} {s₀ : ServerState}
    {s : State (World Θ) ServerState Request Answer Report (Outside Θ)}
    {es : List (Event Fault (Outside Θ))}
    (hcareful : Meets (system engine job).step (System.Careful patient Gone) (.init x s₀) es)
    (hr : run (system engine job).step (.init x s₀) es = some s) :
    (system engine job).OnlyDelayed (.init x s₀) s :=
  System.only_delayed patient_system rfl hcareful hr

/-! ### One decision -/

/-- A root that is bound to `room-1`. -/
def boundRoot : ManagedRoot :=
  { ManagedRoot.new "root-1" "/work" "work" 1 with
    roomId := some "room-1", roomBindingStatus := .active }

/-- The number of batches that have been executed stands for the files. -/
def countingEngine : FileEngine ℕ where
  proposalReport _ _ _ := .error "no proposal"
  execute n _ _ := (.ok (.succeeded, "done"), n + 1)
  validateLocalTransferSource _ _ _ := .error ⟨.sourceNotFound, "no file"⟩
  ensureSourceUnchanged _ _ := .error "no file"
  hashSourcePayload _ _ := .error "no file"
  openSource _ _ := .error "no file"

def oneDecision : System (World ℕ) ServerState Request Answer Report Fault (Outside ℕ) :=
  system countingEngine (.decision "room-1" [])

def bound : World ℕ := ⟨(∅ : Roots).insert "root-1" boundRoot, 5, true, 0⟩

def decided : ServerState := ⟨true, [⟨"room-1", "root-1", true⟩], .decision none⟩

/-- The execution cannot be created at first, and its result not be sent. -/
def delayed : List (Event Fault (Outside ℕ)) :=
  [.start, .answer, .lose .unreachable false, .start, .answer, .answer, .answer, .go, .go, .go, .go,
    .undelivered 0 false true, .deliver 0]

lemma transport_faults_only_delay_delayed :
    ∃ s, run oneDecision.step (.init bound decided) delayed = some s ∧
      oneDecision.OnlyDelayed (.init bound decided) s := by
  have hrun : (run oneDecision.step (.init bound decided) delayed).isSome = true := by
    decide +kernel
  obtain ⟨s, hs⟩ := Option.isSome_iff_exists.mp hrun
  exact ⟨s, hs, transport_faults_only_delay (by decide +kernel) hs⟩

/-- The room cannot be looked up once the execution has been created. -/
def lookupLost : List (Event Fault (Outside ℕ)) :=
  [.start, .answer, .answer, .lose .unreachable false, .go, .go, .deliver 0]

/-- The server has the decision, and no failure. -/
structure Unfailed (s : ServerState) : Prop where
  device : s.deviceActive = true
  rooms : s.rooms = [⟨"room-1", "root-1", true⟩]
  record : ∃ e, s.record = .decision e ∧ ∀ e' ∈ e, e'.status ≠ .failed

def Succeeds (k : Report) : Prop := ∃ summary, k = .execution .succeeded summary

/-- The root is bound to the room, and the outbox can be written. -/
def Ready (x : World ℕ) : Prop := x.roots = bound.roots ∧ x.stores = true

lemma checked_bound :
    ManagedRootStore.checkActiveRoomBinding bound.roots "root-1" "room-1" = .ok (some boundRoot) := by
  decide +kernel

lemma within_enqueue {k : Report} (h : Succeeds k) :
    System.Within oneDecision Ready Unfailed Succeeds (enqueue k fun _ => .done) := by
  intro x hx
  dsimp only
  rw [if_pos hx.2]
  exact ⟨h, trivial⟩

lemma within_execute : System.Within oneDecision Ready Unfailed Succeeds
    (managedRoot "room-1" fun
      | .error error => enqueue (.execution .failed error) fun _ => .done
      | .ok root => .write
        (fun x => { x with files := (countingEngine.execute x.files root []).2 })
        fun x =>
          match (countingEngine.execute x.files root []).1 with
          | .ok (status, summary) => enqueue (.execution status summary) fun _ => .done
          | .error error => enqueue (.execution .failed error) fun _ => .done) := by
  intro s hs
  refine ⟨hs, ?_⟩
  have hanswer : (oneDecision.serve .rooms s).1 = .ok (.rooms [⟨"room-1", "root-1", true⟩]) := by
    simp [oneDecision, system_serve, ServerState.serve, hs.device, hs.rooms]
  rw [hanswer]
  intro x hx
  dsimp only
  have hroot : ManagedRootStore.checkActiveRoomBinding x.roots "root-1" "room-1" =
      .ok (some boundRoot) := by
    rw [hx.1]
    exact checked_bound
  simp only [hroot]
  exact fun x hx => ⟨hx, within_enqueue ⟨_, rfl⟩⟩

lemma within_processDecision :
    System.Within oneDecision Ready Unfailed Succeeds (processDecision countingEngine "room-1" []) := by
  intro s hs
  obtain ⟨e, hr, he⟩ := hs.record
  have hserve : ∃ t, Unfailed t ∧ oneDecision.serve .createExecution s = (.ok .done, t) := by
    cases e with
    | none =>
      refine ⟨s.setRecord (.decision (some ⟨.executing, none⟩)), ⟨hs.device, hs.rooms, _, rfl, ?_⟩, ?_⟩
      · rintro _ ⟨⟩
        nofun
      · simp [oneDecision, system_serve, ServerState.serve, hr, hs.device]
    | some e =>
      refine ⟨s, hs, ?_⟩
      simp [oneDecision, system_serve, ServerState.serve, hr, hs.device]
  obtain ⟨t, ht, hserve⟩ := hserve
  rw [hserve]
  exact ⟨ht, within_execute⟩

lemma within_processPending :
    System.Within oneDecision Ready Unfailed Succeeds oneDecision.main := by
  intro s hs
  refine ⟨hs, ?_⟩
  generalize (oneDecision.serve .pending s).1 = answer
  cases answer with
  | error error => trivial
  | ok reply =>
    cases reply with
    | notPending | rooms | done | command => trivial
    | pending => exact within_processDecision

lemma unfailed_deliver (k : Report) (s : ServerState) (hk : Succeeds k) (hs : Unfailed s) :
    Unfailed (oneDecision.deliver k s) := by
  obtain ⟨summary, rfl⟩ := hk
  obtain ⟨e, hr, he⟩ := hs.record
  change Unfailed (s.deliver (.decision "room-1" []) (.execution .succeeded summary))
  cases e with
  | none => simpa only [ServerState.deliver, hr] using hs
  | some e =>
    simp only [ServerState.deliver, hr]
    split
    · refine ⟨hs.device, hs.rooms, _, rfl, ?_⟩
      rintro _ ⟨⟩
      nofun
    · exact hs

def Record.isFailed : Record → Bool
  | .decision (some e) => e.status = .failed
  | _ => false

lemma Unfailed.not_isFailed {s : ServerState} (h : Unfailed s) : s.record.isFailed = false := by
  obtain ⟨e, hr, he⟩ := h.record
  rw [hr]
  cases e with
  | none => rfl
  | some e => exact decide_eq_false (he e rfl)

/-- The execution is recorded as failed, which no run without faults would do. -/
theorem not_transport_faults_only_delay :
    ∃ s, run oneDecision.step (.init bound decided) lookupLost = some s ∧
      ¬ oneDecision.OnlyDelayed (.init bound decided) s := by
  have hrun : (run oneDecision.step (.init bound decided) lookupLost).map (fun s =>
      (s.log.isEmpty, s.server.record.isFailed)) = some (true, true) := by
    decide +kernel
  obtain ⟨s, hs, hend⟩ := Option.map_eq_some_iff.mp hrun
  obtain ⟨hlog, hfailed⟩ := Prod.mk.inj hend
  refine ⟨s, hs, ?_⟩
  rintro ⟨es, t, hes, hrt, hlogs, -, hserver, -⟩
  have hinit : System.Confined oneDecision Ready Unfailed Succeeds (.init bound decided) :=
    ⟨trivial, ⟨rfl, rfl⟩, ⟨rfl, rfl, _, rfl, nofun⟩, nofun⟩
  have hconfined := System.confined within_processPending unfailed_deliver hinit hes hrt
    (hlogs.trans (List.isEmpty_iff.mp hlog))
  rw [← hserver, hconfined.server.not_isFailed] at hfailed
  cases hfailed

end MouseKeeper.Desktop.Transport
