import MouseKeeper.KeyedTable
import MouseKeeper.Machine
import Mathlib.Logic.Function.Basic

/-!
The notification jobs of the worker: claimed for the time of a lease, sent to the active tokens
of a user in batches, and put back after a failure.

Every statement and every batch is a step of its own. Phones register tokens, and users revoke
them, at any time. Of the due jobs, any may be the next.
-/

namespace MouseKeeper.Worker

/-! ### Rows -/

inductive JobStatus
  | pending
  | processing
  | completed
  deriving DecidableEq

structure NotificationJob where
  userId : ℕ
  status : JobStatus
  attemptCount : ℕ
  nextAttemptAt : ℕ
  lastErrorCode : Option String
  deriving DecidableEq

/-- A row of `push_notification_tokens`, of which there is one for each token. -/
structure PushToken where
  id : ℕ
  userId : ℕ
  active : Bool
  deriving DecidableEq

/-! ### What FCM says -/

inductive SendResult
  | success
  | failed (code : Option String)
  deriving DecidableEq

def permanentlyInvalidTokenCodes : List String :=
  ["messaging/registration-token-not-registered", "messaging/invalid-registration-token"]

def isPermanentlyInvalidTokenError (code : Option String) : Bool :=
  code.any fun code => code ∈ permanentlyInvalidTokenCodes

namespace SendResult

def invalid : SendResult → Bool
  | success => false
  | failed code => isPermanentlyInvalidTokenError code

/-- The result asks for another attempt. -/
def retried : SendResult → Bool
  | success => false
  | failed code => !isPermanentlyInvalidTokenError code

end SendResult

/-- A message that was handed over, with what was said of it. -/
structure Sent where
  jobId : ℕ
  tokenId : ℕ
  result : SendResult
  deriving DecidableEq

def BATCH_SIZE : ℕ := 500

/-- The messages of a batch. If the call throws, nothing is known of any of them. -/
def sendEachForMulticast (jobId : ℕ) (batch : List ℕ) (answer : Option (List SendResult)) :
    List Sent :=
  (batch.zip (answer.getD (List.replicate batch.length (.failed none)))).map fun x =>
    ⟨jobId, x.1, x.2⟩

lemma tokenIds_sent {jobId : ℕ} {batch : List ℕ} {answer : Option (List SendResult)}
    (h : answer.all (fun results => results.length = batch.length) = true) :
    (sendEachForMulticast jobId batch answer).map (·.tokenId) = batch := by
  have hlen : batch.length ≤ (answer.getD (List.replicate batch.length (.failed none))).length := by
    cases answer with
    | none => exact Nat.le_of_eq List.length_replicate.symm
    | some results => exact Nat.le_of_eq (of_decide_eq_true h).symm
  rw [sendEachForMulticast, List.map_map]
  exact List.map_fst_zip hlen

lemma jobId_of_sent {jobId : ℕ} {batch : List ℕ} {answer : Option (List SendResult)} {x : Sent}
    (h : x ∈ sendEachForMulticast jobId batch answer) : x.jobId = jobId := by
  obtain ⟨_, -, rfl⟩ := List.mem_map.mp h
  rfl

def invalidIds (sent : List Sent) : List ℕ := (sent.filter (·.result.invalid)).map (·.tokenId)

lemma mem_invalidIds {sent : List Sent} {tokenId : ℕ} :
    tokenId ∈ invalidIds sent ↔ ∃ x ∈ sent, x.result.invalid = true ∧ x.tokenId = tokenId := by
  rw [invalidIds, List.mem_map]
  simp only [List.mem_filter, and_assoc]

lemma SendResult.success_or {r : SendResult} (h : r.retried = false) :
    r = .success ∨ r.invalid = true := by
  cases r with
  | success => exact .inl rfl
  | failed code =>
    rw [retried, Bool.not_eq_false'] at h
    exact .inr h

/-! ### The workers -/

/-- Where a worker is in `processNotificationJob`. -/
inductive Phase
  | idle
  | claimed (jobId userId : ℕ)
  | noTokens (jobId : ℕ)
  | sending (jobId : ℕ) (rest : List ℕ) (retryRequired : Bool)
  | revoking (jobId : ℕ) (invalid rest : List ℕ) (retryRequired : Bool)
  deriving DecidableEq

/-- The store and the workers, with the messages that were sent, the last one first, the tokens
that were revoked, and those that the last attempt at a job found active. -/
structure State where
  now : ℕ
  jobs : ℕ → Option NotificationJob
  tokens : Table PushToken.id
  workers : ℕ → Phase
  sent : List Sent
  revoked : List ℕ
  tried : ℕ → List ℕ

def State.init : State where
  now := 0
  jobs _ := none
  tokens := .empty
  workers _ := .idle
  sent := []
  revoked := []
  tried _ := []

inductive Event
  | wait (ms : ℕ)
  | enqueue (jobId userId : ℕ)
  | register (tokenId userId : ℕ)
  | revokeToken (tokenId userId : ℕ)
  | claim (worker jobId : ℕ)
  /-- What the worker waits for is there; for a batch, its answer. -/
  | work (worker : ℕ) (answer : Option (List SendResult))
  /-- The statement that the worker waits for fails. -/
  | fail (worker : ℕ)

/-- The worker that takes the step. -/
def Event.worker : Event → Option ℕ
  | .claim w _ | .work w _ | .fail w => some w
  | _ => none

namespace State

variable (s : State)

def activeTokens (userId : ℕ) : List ℕ :=
  (s.tokens.rows.filter fun t => t.userId = userId && t.active).map (·.id)

def setWorker (w : ℕ) (p : Phase) : State := { s with workers := Function.update s.workers w p }

def setJob (jobId : ℕ) (job : NotificationJob) : State :=
  { s with jobs := Function.update s.jobs jobId (some job) }

variable {s}

lemma workers_setWorker (w : ℕ) (p : Phase) : (s.setWorker w p).workers w = p :=
  Function.update_self ..

lemma workers_setWorker_of_ne {w w' : ℕ} {p : Phase} (h : w' ≠ w) :
    (s.setWorker w p).workers w' = s.workers w' :=
  Function.update_of_ne h ..

lemma jobs_setJob (jobId : ℕ) (job : NotificationJob) :
    (s.setJob jobId job).jobs jobId = some job :=
  Function.update_self ..

lemma jobs_setJob_of_ne {jobId jobId' : ℕ} {job : NotificationJob} (h : jobId' ≠ jobId) :
    (s.setJob jobId job).jobs jobId' = s.jobs jobId' :=
  Function.update_of_ne h ..

variable (s)

/-- `NotificationsService.register`. -/
def register (tokenId userId : ℕ) : Option State :=
  match s.tokens.find tokenId with
  | some _ => some { s with
      tokens := s.tokens.modify (fun t => t.id = tokenId)
        (fun t => { t with userId := userId, active := true }) fun _ => rfl }
  | none => (s.tokens.insert ⟨tokenId, userId, true⟩).map fun tokens => { s with tokens := tokens }

def revokeIds (ids : List ℕ) : State :=
  { s with
    tokens := s.tokens.modify (fun t => t.id ∈ ids) (fun t => { t with active := false })
      fun _ => rfl
    revoked := ids ++ s.revoked }

/-- `NotificationsService.revoke`. -/
def revokeToken (tokenId userId : ℕ) : Option State :=
  match s.tokens.find tokenId with
  | some t => if t.userId = userId ∧ t.active then some (s.revokeIds [tokenId]) else none
  | none => none

def claimNotificationJob (w jobId : ℕ) : Option State :=
  match s.workers w, s.jobs jobId with
  | .idle, some job =>
    if job.nextAttemptAt ≤ s.now ∧ job.status ≠ .completed then
      some ((s.setJob jobId { job with
        status := .processing
        attemptCount := job.attemptCount + 1
        nextAttemptAt := s.now + 5 * 60000 }).setWorker w (.claimed jobId job.userId))
    else none
  | _, _ => none

def completeNotificationJob (jobId : ℕ) (lastErrorCode : Option String) : State :=
  match s.jobs jobId with
  | some job => s.setJob jobId { job with status := .completed, lastErrorCode := lastErrorCode }
  | none => s

/-- The update of a job that has to be repeated. -/
def retryNotificationJob (jobId : ℕ) : State :=
  match s.jobs jobId with
  | some job => s.setJob jobId { job with
      status := .pending
      nextAttemptAt := s.now + 60000
      lastErrorCode := some "FCM_SEND_FAILED" }
  | none => s

/-- What `processNotificationJob` does up to its next statement or batch. -/
def processNotificationJob (w : ℕ) (answer : Option (List SendResult)) : Option State :=
  match s.workers w with
  | .idle => none
  | .claimed jobId userId =>
    let tokens := s.activeTokens userId
    some ({ s with tried := Function.update s.tried jobId tokens }.setWorker w
      (if tokens = [] then .noTokens jobId else .sending jobId tokens false))
  | .noTokens jobId =>
    some ((s.completeNotificationJob jobId (some "NO_ACTIVE_TOKENS")).setWorker w .idle)
  | .sending jobId [] retryRequired =>
    some ((if retryRequired then s.retryNotificationJob jobId
      else s.completeNotificationJob jobId none).setWorker w .idle)
  | .sending jobId (t :: ts) retryRequired =>
    let batch := (t :: ts).take BATCH_SIZE
    let rest := (t :: ts).drop BATCH_SIZE
    if answer.all fun results => results.length = batch.length then
      let sent := sendEachForMulticast jobId batch answer
      let retryRequired := retryRequired || answer.isNone || sent.any (·.result.retried)
      some ({ s with sent := sent ++ s.sent }.setWorker w
        (if invalidIds sent = [] then .sending jobId rest retryRequired
          else .revoking jobId (invalidIds sent) rest retryRequired))
    else none
  | .revoking jobId invalid rest retryRequired =>
    some ((s.revokeIds invalid).setWorker w (.sending jobId rest retryRequired))

/-- A statement that fails ends the attempt, unless a batch catches it. -/
def failStatement (w : ℕ) : Option State :=
  match s.workers w with
  | .idle | .sending _ (_ :: _) _ => none
  | .claimed _ _ | .noTokens _ | .sending _ [] _ => some (s.setWorker w .idle)
  | .revoking jobId _ rest _ => some (s.setWorker w (.sending jobId rest true))

def enqueue (jobId userId : ℕ) : Option State :=
  match s.jobs jobId with
  | some _ => none
  | none => some (s.setJob jobId ⟨userId, .pending, 0, s.now, none⟩)

def step : Event → Option State
  | .wait ms => some { s with now := s.now + ms }
  | .enqueue jobId userId => s.enqueue jobId userId
  | .register tokenId userId => s.register tokenId userId
  | .revokeToken tokenId userId => s.revokeToken tokenId userId
  | .claim w jobId => s.claimNotificationJob w jobId
  | .work w answer => s.processNotificationJob w answer
  | .fail w => s.failStatement w

/-! ### What a step leaves alone -/

variable {s} {t : State}

@[simp] lemma workers_setJob {jobId : ℕ} {job : NotificationJob} :
    (s.setJob jobId job).workers = s.workers := rfl

@[simp] lemma workers_complete {jobId : ℕ} {lastErrorCode : Option String} :
    (s.completeNotificationJob jobId lastErrorCode).workers = s.workers := by
  unfold completeNotificationJob
  split <;> rfl

@[simp] lemma workers_retry {jobId : ℕ} : (s.retryNotificationJob jobId).workers = s.workers := by
  unfold retryNotificationJob
  split <;> rfl

/-- A worker is where it was until it takes a step itself. -/
lemma workers_of_step {e : Event} {w : ℕ} (hw : e.worker ≠ some w) (h : s.step e = some t) :
    t.workers w = s.workers w := by
  cases e with
  | wait ms =>
    cases h
    rfl
  | enqueue jobId userId =>
    simp only [step, enqueue] at h
    split at h
    · cases h
    · cases h
      rfl
  | register tokenId userId =>
    simp only [step, register] at h
    split at h
    · cases h
      rfl
    · obtain ⟨_, -, rfl⟩ := Option.map_eq_some_iff.mp h
      rfl
  | revokeToken tokenId userId =>
    simp only [step, revokeToken] at h
    split at h
    · split at h
      · cases h
        rfl
      · cases h
    · cases h
  | claim w' jobId =>
    have hne : w ≠ w' := fun heq => hw (congrArg some heq.symm)
    simp only [step, claimNotificationJob] at h
    split at h
    · split at h
      · cases h
        exact workers_setWorker_of_ne hne
      · cases h
    · cases h
  | work w' answer =>
    have hne : w ≠ w' := fun heq => hw (congrArg some heq.symm)
    simp only [step, processNotificationJob] at h
    split at h
    · cases h
    · cases h
      exact workers_setWorker_of_ne hne
    · cases h
      rw [workers_setWorker_of_ne hne, workers_complete]
    · cases h
      rw [workers_setWorker_of_ne hne]
      split
      · rw [workers_retry]
      · rw [workers_complete]
    · split at h
      · cases h
        exact workers_setWorker_of_ne hne
      · cases h
    · cases h
      exact workers_setWorker_of_ne hne
  | fail w' =>
    have hne : w ≠ w' := fun heq => hw (congrArg some heq.symm)
    simp only [step, failStatement] at h
    split at h
    · cases h
    · cases h
    all_goals
      cases h
      exact workers_setWorker_of_ne hne

lemma workers_of_run {es : List Event} {w : ℕ} (hw : ∀ e ∈ es, e.worker ≠ some w)
    (h : Machine.run step s es = some t) : t.workers w = s.workers w := by
  induction es generalizing s with
  | nil =>
    cases h
    rfl
  | cons e es ih =>
    obtain ⟨s₁, hs, h⟩ := Option.bind_eq_some_iff.mp h
    rw [ih (fun e he => hw e (List.mem_cons_of_mem _ he)) h,
      workers_of_step (hw e List.mem_cons_self) hs]

end State

end MouseKeeper.Worker
