import MouseKeeper.Worker.Notifications

/-!
A notification reaches each phone once.

The success of a token is known for the attempt only. An attempt that starts over takes the
active tokens as they are, and so do the attempts at other jobs.
-/

namespace MouseKeeper.Worker

open MouseKeeper.Machine

/-! ### What is asked -/

namespace Phase

/-- The job that is worked on. -/
def job : Phase → Option ℕ
  | idle => none
  | claimed jobId _ | noTokens jobId | sending jobId _ _ | revoking jobId _ _ _ => some jobId

/-- The tokens that are still to be sent to. -/
def unsent : Phase → List ℕ
  | idle | claimed _ _ | noTokens _ => []
  | sending _ rest _ | revoking _ _ rest _ => rest

/-- The tokens that are to be revoked next. -/
def unrevoked : Phase → List ℕ
  | revoking _ invalid _ _ => invalid
  | _ => []

end Phase

/-- No worker is still at its job when the lease has run out. -/
def State.InLease (s : State) : Event → Prop
  | .wait ms => ∀ w, ∀ jobId ∈ (s.workers w).job, ∀ job ∈ s.jobs jobId,
    s.now + ms < job.nextAttemptAt
  | _ => True

structure State.EachPhoneOnce (s : State) : Prop where
  /-- What was a success is not sent again. -/
  once : s.sent.Pairwise fun later earlier => earlier.result = .success →
    later.jobId = earlier.jobId → later.tokenId ≠ earlier.tokenId
  /-- An invalid token is not used again. -/
  unused : s.sent.Pairwise fun later earlier => earlier.result.invalid = true →
    later.tokenId ≠ earlier.tokenId
  /-- It is revoked, or about to be. -/
  revoked : ∀ x ∈ s.sent, x.result.invalid = true →
    x.tokenId ∈ s.revoked ∨ ∃ w, x.tokenId ∈ (s.workers w).unrevoked
  /-- Nothing is left of a job that is completed. -/
  completed : ∀ jobId, ∀ job ∈ s.jobs jobId, job.status = .completed →
    ∀ t ∈ s.tried jobId, ⟨jobId, t, .success⟩ ∈ s.sent ∨ t ∈ s.revoked

/-! ### The condition -/

/-- The token was reached for the job, or reported invalid for any. -/
def State.Spent (s : State) (jobId tokenId : ℕ) : Prop :=
  ∃ x ∈ s.sent, x.tokenId = tokenId ∧
    (x.jobId = jobId ∧ x.result = .success ∨ x.result.invalid = true)

/-- Attempts find no spent token active, no token is reported invalid while another worker has
it still to send to, and no revocation fails. -/
def State.Careful (s : State) : Event → Prop
  | .work w answer =>
    match s.workers w with
    | .claimed jobId userId => ∀ t ∈ s.activeTokens userId, ¬ s.Spent jobId t
    | .sending jobId rest _ =>
      ∀ t ∈ invalidIds (sendEachForMulticast jobId (rest.take BATCH_SIZE) answer),
        ∀ w', w' ≠ w → t ∉ (s.workers w').unsent
    | _ => True
  | .fail w => (s.workers w).unrevoked = []
  | _ => True

/-! ### What lasts -/

/-- The tokens of the attempt that are not to be sent to any more are done, if the attempt is not
to be repeated. -/
def Phase.Settled (s : State) : Phase → Prop
  | .idle | .claimed _ _ => True
  | .noTokens jobId => s.tried jobId = []
  | .sending jobId rest retryRequired => retryRequired = false → ∀ t ∈ s.tried jobId,
      t ∈ rest ∨ ⟨jobId, t, .success⟩ ∈ s.sent ∨ t ∈ s.revoked
  | .revoking jobId invalid rest retryRequired => retryRequired = false → ∀ t ∈ s.tried jobId,
      t ∈ rest ∨ ⟨jobId, t, .success⟩ ∈ s.sent ∨ t ∈ invalid ++ s.revoked

/-- What holds of one worker. -/
structure Phase.Good (s : State) (p : Phase) : Prop where
  lease : ∀ jobId ∈ p.job, ∃ job ∈ s.jobs jobId,
    job.status = .processing ∧ s.now < job.nextAttemptAt
  nodup : p.unsent.Nodup
  fresh : ∀ jobId ∈ p.job, ∀ t ∈ p.unsent, ¬ s.Spent jobId t
  settled : p.Settled s

structure Inv (s : State) : Prop where
  law : s.EachPhoneOnce
  good : ∀ w, (s.workers w).Good s
  alone : ∀ w w' jobId, jobId ∈ (s.workers w).job → jobId ∈ (s.workers w').job → w = w'

variable {s t : State} {p : Phase} {w : ℕ}

lemma good_idle : Phase.idle.Good s :=
  ⟨fun _ => nofun, .nil, fun _ => nofun, trivial⟩

lemma Phase.Settled.mono (h : p.Settled s) (hsent : s.sent ⊆ t.sent) (hrevoked : s.revoked ⊆ t.revoked)
    (htried : ∀ jobId ∈ p.job, t.tried jobId = s.tried jobId) : p.Settled t := by
  cases p with
  | idle => trivial
  | claimed _ _ => trivial
  | noTokens jobId => exact (htried jobId rfl).trans h
  | sending jobId rest retry =>
    intro hretry x hx
    rw [htried jobId rfl] at hx
    exact (h hretry x hx).imp_right (Or.imp (fun hx => hsent hx) fun hx => hrevoked hx)
  | revoking jobId invalid rest retry =>
    intro hretry x hx
    rw [htried jobId rfl] at hx
    refine (h hretry x hx).imp_right (Or.imp (fun hx => hsent hx) fun hx => ?_)
    exact List.mem_append.mpr ((List.mem_append.mp hx).imp_right fun hx => hrevoked hx)

/-- A worker does not mind what is done to other jobs. -/
lemma Phase.Good.mono (h : p.Good s) (hnow : t.now = s.now)
    (hjobs : ∀ jobId ∈ p.job, t.jobs jobId = s.jobs jobId)
    (hspent : ∀ jobId ∈ p.job, ∀ x ∈ p.unsent, t.Spent jobId x → s.Spent jobId x)
    (hsent : s.sent ⊆ t.sent) (hrevoked : s.revoked ⊆ t.revoked)
    (htried : ∀ jobId ∈ p.job, t.tried jobId = s.tried jobId) : p.Good t where
  lease jobId hjob := by
    rw [hjobs jobId hjob, hnow]
    exact h.lease jobId hjob
  nodup := h.nodup
  fresh jobId hjob x hx hs := h.fresh jobId hjob x hx (hspent jobId hjob x hx hs)
  settled := h.settled.mono hsent hrevoked htried

/-- The token is not used any more, or will not be after the next statement. -/
def State.Dead (s : State) (tokenId : ℕ) : Prop :=
  tokenId ∈ s.revoked ∨ ∃ w, tokenId ∈ (s.workers w).unrevoked

lemma State.EachPhoneOnce.mono (h : s.EachPhoneOnce) (hsent : t.sent = s.sent)
    (hdead : ∀ x, s.Dead x → t.Dead x) (hrevoked : s.revoked ⊆ t.revoked)
    (hjobs : ∀ jobId, ∀ job ∈ t.jobs jobId, job.status = .completed →
      t.tried jobId = s.tried jobId ∧ s.jobs jobId = some job ∨
        ∀ x ∈ t.tried jobId, ⟨jobId, x, .success⟩ ∈ t.sent ∨ x ∈ t.revoked) :
    t.EachPhoneOnce where
  once := hsent ▸ h.once
  unused := hsent ▸ h.unused
  revoked x hx hinvalid := hdead _ (h.revoked x (hsent ▸ hx) hinvalid)
  completed jobId job hjob hdone x hx := by
    rcases hjobs jobId job hjob hdone with ⟨htried, hold⟩ | hall
    · rw [htried] at hx
      rw [hsent]
      exact (h.completed jobId job hold hdone x hx).imp_right fun hx => hrevoked hx
    · exact hall x hx

/-- The invariant after a worker has gone on. -/
lemma Inv.setWorker (h : Inv s) (hlaw : (t.setWorker w p).EachPhoneOnce) (hw : t.workers = s.workers)
    (hgood : p.Good t) (hothers : ∀ w', w' ≠ w → (s.workers w').Good t)
    (hjob : ∀ w', w' ≠ w → ∀ jobId ∈ p.job, jobId ∉ (s.workers w').job) :
    Inv (t.setWorker w p) := by
  have hself := t.workers_setWorker w p
  have hother (w') (hne : w' ≠ w) : (t.setWorker w p).workers w' = s.workers w' := by
    rw [← hw]
    exact State.workers_setWorker_of_ne hne
  refine ⟨hlaw, fun w' => ?_, fun w₁ w₂ jobId h₁ h₂ => ?_⟩
  · rcases eq_or_ne w' w with rfl | hne
    · rw [hself]
      exact ⟨hgood.lease, hgood.nodup, hgood.fresh, hgood.settled⟩
    · rw [hother w' hne]
      have hg := hothers w' hne
      exact ⟨hg.lease, hg.nodup, hg.fresh, hg.settled⟩
  · rcases eq_or_ne w₁ w with rfl | hne₁ <;> rcases eq_or_ne w₂ w₁ with rfl | hne₂
    · rfl
    · rw [hself] at h₁
      rw [hother w₂ hne₂] at h₂
      exact absurd h₂ (hjob w₂ hne₂ jobId h₁)
    · rfl
    · rw [hother w₁ hne₁] at h₁
      rcases eq_or_ne w₂ w with rfl | hne
      · rw [hself] at h₂
        exact absurd h₁ (hjob w₁ hne₁ jobId h₂)
      · rw [hother w₂ hne] at h₂
        exact h.alone w₁ w₂ jobId h₁ h₂

/-! ### One step -/

/-- Where no worker goes on. -/
lemma Inv.of_workers (h : Inv s) (hlaw : t.EachPhoneOnce) (hw : t.workers = s.workers)
    (hgood : ∀ w, (s.workers w).Good t) : Inv t :=
  ⟨hlaw, hw ▸ hgood, hw ▸ h.alone⟩

lemma dead_setWorker (hw : t.workers = s.workers) (hrevoked : s.revoked ⊆ t.revoked)
    (hp : ∀ x ∈ (s.workers w).unrevoked, x ∈ t.revoked ∨ x ∈ p.unrevoked) (x : ℕ)
    (h : s.Dead x) : (t.setWorker w p).Dead x := by
  rcases h with hx | ⟨w', hx⟩
  · exact .inl (hrevoked hx)
  rcases eq_or_ne w' w with rfl | hne
  · refine (hp x hx).imp_right fun hx => ⟨w', ?_⟩
    rwa [State.workers_setWorker]
  · refine .inr ⟨w', ?_⟩
    rwa [State.workers_setWorker_of_ne hne, hw]

lemma dead_of_nil (hw : t.workers = s.workers) (hrevoked : s.revoked ⊆ t.revoked)
    (hnil : (s.workers w).unrevoked = []) : ∀ x, s.Dead x → (t.setWorker w p).Dead x :=
  dead_setWorker hw hrevoked fun x hx => by
    rw [hnil] at hx
    cases hx

/-- The jobs of the others. -/
lemma Inv.others (h : Inv s) {jobId : ℕ} (hjob : jobId ∈ (s.workers w).job) {w' : ℕ} (hne : w' ≠ w)
    {j : ℕ} (hj : j ∈ (s.workers w').job) : j ≠ jobId :=
  fun heq => hne (h.alone w' w j hj (heq ▸ hjob))

lemma inv_wait {ms : ℕ} (h : Inv s) (hlease : s.InLease (.wait ms)) :
    Inv { s with now := s.now + ms } := by
  refine h.of_workers (h.law.mono rfl (fun x => id) (fun _ => id) fun _ _ hjob _ =>
    .inl ⟨rfl, hjob⟩) rfl fun w => ?_
  have hg := h.good w
  refine ⟨fun jobId hjob => ?_, hg.nodup, hg.fresh, hg.settled.mono (fun _ => id) (fun _ => id)
    fun _ _ => rfl⟩
  obtain ⟨job, hj, hstatus, -⟩ := hg.lease jobId hjob
  exact ⟨job, hj, hstatus, hlease w jobId hjob job hj⟩

lemma inv_enqueue {jobId userId : ℕ} (h : Inv s) (hs : s.enqueue jobId userId = some t) : Inv t := by
  unfold State.enqueue at hs
  split at hs
  · cases hs
  next hnone =>
  cases hs
  refine h.of_workers (h.law.mono rfl (fun x => id) (fun _ => id) fun j job hjob hdone => ?_) rfl
    fun w => (h.good w).mono rfl (fun j hj => ?_) (fun _ _ _ _ => id) (fun _ => id) (fun _ => id)
      fun _ _ => rfl
  · rcases eq_or_ne j jobId with rfl | hne
    · cases (State.jobs_setJob ..).symm.trans hjob
      cases hdone
    · exact .inl ⟨rfl, (State.jobs_setJob_of_ne hne).symm.trans hjob⟩
  · obtain ⟨job, hjob, -⟩ := (h.good w).lease j hj
    refine State.jobs_setJob_of_ne fun heq => ?_
    rw [heq, hnone] at hjob
    cases hjob

/-- Tokens come and go. -/
lemma Inv.setTokens (h : Inv s) {tokens : Table PushToken.id} (ids : List ℕ) :
    Inv { s with tokens := tokens, revoked := ids ++ s.revoked } := by
  have hsub : s.revoked ⊆ ids ++ s.revoked := List.subset_append_right ids s.revoked
  exact h.of_workers (h.law.mono rfl (fun x => Or.imp_left fun hx => hsub hx) hsub
    fun _ _ hjob _ => .inl ⟨rfl, hjob⟩) rfl fun w => (h.good w).mono rfl (fun _ _ => rfl)
      (fun _ _ _ _ => id) (fun _ => id) hsub fun _ _ => rfl

lemma inv_register {tokenId userId : ℕ} (h : Inv s) (hs : s.register tokenId userId = some t) :
    Inv t := by
  unfold State.register at hs
  split at hs
  · cases hs
    exact h.setTokens []
  · obtain ⟨tokens, -, rfl⟩ := Option.map_eq_some_iff.mp hs
    exact h.setTokens []

lemma inv_revokeToken {tokenId userId : ℕ} (h : Inv s)
    (hs : s.revokeToken tokenId userId = some t) : Inv t := by
  unfold State.revokeToken at hs
  split at hs
  · split at hs
    · cases hs
      exact h.setTokens _
    · cases hs
  · cases hs

/-- A job is claimed only when no worker has it. -/
lemma inv_claim {jobId : ℕ} (h : Inv s) (hs : s.claimNotificationJob w jobId = some t) : Inv t := by
  unfold State.claimNotificationJob at hs
  split at hs
  swap
  · cases hs
  next job hidle hjob =>
  split at hs
  swap
  · cases hs
  next hdue =>
  cases hs
  have hfree (w' : ℕ) : jobId ∉ (s.workers w').job := by
    intro hw'
    obtain ⟨job', hjob', -, hlease⟩ := (h.good w').lease jobId hw'
    cases hjob.symm.trans hjob'
    exact absurd hdue.1 (Nat.not_le.mpr hlease)
  have hothers (w' : ℕ) (j : ℕ) (hj : j ∈ (s.workers w').job) : j ≠ jobId :=
    fun heq => hfree w' (heq ▸ hj)
  refine h.setWorker (h.law.mono rfl (dead_of_nil rfl (fun _ => id) (by rw [hidle]; rfl))
    (fun _ => id) fun j row hrow hdone => ?_) rfl
    ⟨fun j hj => ?_, .nil, fun _ _ _ => nofun, trivial⟩ (fun w' _ => (h.good w').mono rfl
      (fun j hj => State.jobs_setJob_of_ne (hothers w' j hj)) (fun _ _ _ _ => id) (fun _ => id)
        (fun _ => id) fun _ _ => rfl) fun w' _ j hj => ?_
  · rcases eq_or_ne j jobId with rfl | hne
    · cases (State.jobs_setJob ..).symm.trans hrow
      cases hdone
    · exact .inl ⟨rfl, (State.jobs_setJob_of_ne hne).symm.trans hrow⟩
  · cases hj
    exact ⟨_, State.jobs_setJob .., rfl, Nat.lt_add_of_pos_right (by decide)⟩
  · cases hj
    exact hfree w'

/-- The tokens are read: what they are is noted with the job. -/
lemma inv_read {jobId userId : ℕ} (h : Inv s) (hphase : s.workers w = .claimed jobId userId)
    (hspent : ∀ x ∈ s.activeTokens userId, ¬ s.Spent jobId x)
    (hp : p = if s.activeTokens userId = [] then .noTokens jobId
      else .sending jobId (s.activeTokens userId) false) :
    Inv ({ s with tried := Function.update s.tried jobId (s.activeTokens userId) }.setWorker w p) := by
  have hjob : jobId ∈ (s.workers w).job := by rw [hphase]; rfl
  obtain ⟨job, hrow, hstatus, hlease⟩ := (h.good w).lease jobId hjob
  have htried : Function.update s.tried jobId (s.activeTokens userId) jobId =
      s.activeTokens userId := Function.update_self ..
  have hnodup : (s.activeTokens userId).Nodup :=
    s.tokens.nodup.sublist (List.filter_sublist.map _)
  have hpjob : ∀ j ∈ p.job, j = jobId := by
    rw [hp]
    split
    · rintro j ⟨⟩
      rfl
    · rintro j ⟨⟩
      rfl
  refine h.setWorker (h.law.mono rfl (dead_of_nil rfl (fun _ => id) (by rw [hphase]; rfl))
    (fun _ => id) fun j row hj hdone => .inl ⟨?_, hj⟩) rfl ⟨fun j hj => ?_, ?_, fun j hj => ?_, ?_⟩
      (fun w' hne => (h.good w').mono rfl (fun _ _ => rfl) (fun _ _ _ _ => id) (fun _ => id)
        (fun _ => id) fun j hj => Function.update_of_ne (h.others hjob hne hj) ..)
      fun w' hne j hj hj' => h.others hjob hne hj' (hpjob j hj)
  · refine Function.update_of_ne (fun heq => ?_) ..
    cases hrow.symm.trans (heq ▸ hj : s.jobs jobId = some row)
    rw [hstatus] at hdone
    cases hdone
  · rw [hpjob j hj]
    exact ⟨job, hrow, hstatus, hlease⟩
  · rw [hp]
    split
    · exact .nil
    · exact hnodup
  · rw [hpjob j hj, hp]
    split
    · exact fun _ => nofun
    · exact hspent
  · rw [hp]
    split
    · next hnil => exact htried.trans hnil
    · intro _ x hx
      exact .inl (htried ▸ hx)

/-- The worker leaves the job with a new row. -/
lemma Inv.leave {jobId : ℕ} {job : NotificationJob} (h : Inv s) (hjob : jobId ∈ (s.workers w).job)
    (hunrevoked : (s.workers w).unrevoked = [])
    (hdone : job.status = .completed → ∀ x ∈ s.tried jobId,
      ⟨jobId, x, .success⟩ ∈ s.sent ∨ x ∈ s.revoked) :
    Inv ((s.setJob jobId job).setWorker w .idle) := by
  refine h.setWorker (h.law.mono rfl (dead_of_nil rfl (fun _ => id) hunrevoked)
    (fun _ => id) fun j row hrow hcompleted => ?_) rfl good_idle (fun w' hne => (h.good w').mono rfl
      (fun j hj => State.jobs_setJob_of_ne (h.others hjob hne hj)) (fun _ _ _ _ => id) (fun _ => id)
      (fun _ => id) fun _ _ => rfl) fun _ _ _ => nofun
  · rcases eq_or_ne j jobId with rfl | hne
    · cases (State.jobs_setJob ..).symm.trans hrow
      exact .inr (hdone hcompleted)
    · exact .inl ⟨rfl, (State.jobs_setJob_of_ne hne).symm.trans hrow⟩

lemma inv_complete {jobId : ℕ} {lastErrorCode : Option String} (h : Inv s)
    (hjob : jobId ∈ (s.workers w).job) (hunrevoked : (s.workers w).unrevoked = [])
    (hdone : ∀ x ∈ s.tried jobId, ⟨jobId, x, .success⟩ ∈ s.sent ∨ x ∈ s.revoked) :
    Inv ((s.completeNotificationJob jobId lastErrorCode).setWorker w .idle) := by
  obtain ⟨job, hrow, -⟩ := (h.good w).lease jobId hjob
  rw [State.completeNotificationJob, hrow]
  exact h.leave hjob hunrevoked fun _ => hdone

lemma inv_retry {jobId : ℕ} (h : Inv s) (hjob : jobId ∈ (s.workers w).job)
    (hunrevoked : (s.workers w).unrevoked = []) :
    Inv ((s.retryNotificationJob jobId).setWorker w .idle) := by
  obtain ⟨job, hrow, -⟩ := (h.good w).lease jobId hjob
  rw [State.retryNotificationJob, hrow]
  exact h.leave hjob hunrevoked nofun

/-- The worker goes on with the same job, while nothing else changes. -/
lemma Inv.goOn (h : Inv s) (hunrevoked : (s.workers w).unrevoked = []) (hgood : p.Good s)
    (hjob : ∀ j ∈ p.job, j ∈ (s.workers w).job) : Inv (s.setWorker w p) := by
  exact h.setWorker (h.law.mono rfl (dead_of_nil rfl (fun _ => id) hunrevoked) (fun _ => id)
    fun _ _ hj _ => .inl ⟨rfl, hj⟩) rfl hgood (fun w' _ => h.good w')
      fun w' hne j hj hj' => h.others (hjob j hj) hne hj' rfl

lemma inv_revoke {jobId : ℕ} {invalid rest : List ℕ} {retryRequired : Bool} (h : Inv s)
    (hphase : s.workers w = .revoking jobId invalid rest retryRequired) :
    Inv ((s.revokeIds invalid).setWorker w (.sending jobId rest retryRequired)) := by
  have hsub : s.revoked ⊆ invalid ++ s.revoked := List.subset_append_right invalid s.revoked
  have hjob : jobId ∈ (s.workers w).job := by rw [hphase]; rfl
  have hgood := h.good w
  rw [hphase] at hgood
  refine h.setWorker (h.law.mono rfl (dead_setWorker rfl hsub fun x hx => ?_) hsub
    fun _ _ hj _ => .inl ⟨rfl, hj⟩) rfl ⟨hgood.lease, hgood.nodup, hgood.fresh, hgood.settled⟩
      (fun w' _ => (h.good w').mono rfl (fun _ _ => rfl) (fun _ _ _ _ => id) (fun _ => id) hsub
        fun _ _ => rfl) fun w' hne j hj hj' => ?_
  · rw [hphase] at hx
    exact .inl (List.mem_append_left _ hx)
  · cases hj
    exact h.others hjob hne hj' rfl

lemma inv_fail (h : Inv s) (hunrevoked : (s.workers w).unrevoked = [])
    (hs : s.failStatement w = some t) : Inv t := by
  have hgood := h.good w
  unfold State.failStatement at hs
  split at hs
  · cases hs
  · cases hs
  · cases hs
    exact h.goOn hunrevoked good_idle fun _ => nofun
  · cases hs
    exact h.goOn hunrevoked good_idle fun _ => nofun
  · cases hs
    exact h.goOn hunrevoked good_idle fun _ => nofun
  · next jobId invalid rest retry hphase =>
    cases hs
    rw [hphase] at hgood
    refine h.goOn hunrevoked ⟨hgood.lease, hgood.nodup, hgood.fresh, nofun⟩ fun j hj => ?_
    rw [hphase]
    exact hj

section Send

variable {jobId : ℕ} {batch rest : List ℕ} {answer : Option (List SendResult)} {sent : List Sent}

/-- The messages of a batch of fresh tokens go with those before. -/
lemma law_send (h : s.EachPhoneOnce) (hjob : ∀ x ∈ sent, x.jobId = jobId)
    (hnodup : (sent.map (·.tokenId)).Nodup)
    (hfresh : ∀ x ∈ sent, ¬ s.Spent jobId x.tokenId)
    (hw : (s.workers w).unrevoked = []) (hp : ∀ x ∈ invalidIds sent, x ∈ p.unrevoked) :
    ({ s with sent := sent ++ s.sent }.setWorker w p).EachPhoneOnce := by
  have hne : sent.Pairwise fun x y => x.tokenId ≠ y.tokenId := List.pairwise_map.mp hnodup
  have hunused : sent.Pairwise fun x y => y.result.invalid = true → x.tokenId ≠ y.tokenId := by
    refine hne.imp fun h => ?_
    exact fun _ => h
  refine ⟨List.pairwise_append.mpr ⟨hne.imp fun h _ _ => h, h.once, fun x hx y hy hr hj ht => ?_⟩,
    List.pairwise_append.mpr ⟨hunused, h.unused, fun x hx y hy hr ht => ?_⟩,
    fun x hx hinvalid => ?_, fun j job hj hdone x hx => ?_⟩
  · exact hfresh x hx ⟨y, hy, ht.symm, .inl ⟨hj.symm.trans (hjob x hx), hr⟩⟩
  · exact hfresh x hx ⟨y, hy, ht.symm, .inr hr⟩
  · rcases List.mem_append.mp hx with hx | hx
    · have hmem := hp _ (mem_invalidIds.mpr ⟨x, hx, hinvalid, rfl⟩)
      exact .inr ⟨w, by rwa [State.workers_setWorker]⟩
    · have hdead := h.revoked x hx hinvalid
      exact dead_of_nil (t := { s with sent := sent ++ s.sent }) rfl (fun _ => id) hw _ hdead
  · exact (h.completed j job hj hdone x hx).imp_left fun hx => List.mem_append_right _ hx

/-- A token whose result is not to be repeated was reached or is to be revoked. -/
lemma done_of_batch (hbatch : sent.map (·.tokenId) = batch) (hjob : ∀ x ∈ sent, x.jobId = jobId)
    (hretry : sent.any (·.result.retried) = false) {x : ℕ} (hx : x ∈ batch) :
    ⟨jobId, x, .success⟩ ∈ sent ∨ x ∈ invalidIds sent := by
  rw [← hbatch] at hx
  obtain ⟨m, hm, rfl⟩ := List.mem_map.mp hx
  have hno : m.result.retried = false := Bool.eq_false_iff.mpr (List.any_eq_false.mp hretry m hm)
  rcases SendResult.success_or hno with hs | hinvalid
  · refine .inl ?_
    rw [← hjob m hm, ← hs]
    exact hm
  · exact .inr (mem_invalidIds.mpr ⟨m, hm, hinvalid, rfl⟩)

/-- What is spent by the batch is the batch. -/
lemma spent_send (hbatch : sent.map (·.tokenId) = batch) {j x : ℕ} (hx : x ∉ batch)
    (h : { s with sent := sent ++ s.sent }.Spent j x) : s.Spent j x := by
  obtain ⟨m, hm, rfl, hwhy⟩ := h
  rcases List.mem_append.mp hm with hm | hm
  · exact absurd (hbatch ▸ List.mem_map_of_mem hm) hx
  · exact ⟨m, hm, rfl, hwhy⟩

end Send

/-- A batch is sent to. -/
lemma inv_send {jobId : ℕ} {tokens : List ℕ} {retryRequired : Bool}
    {answer : Option (List SendResult)} {sent : List Sent} (h : Inv s)
    (hphase : s.workers w = .sending jobId tokens retryRequired)
    (hsent : sent = sendEachForMulticast jobId (tokens.take BATCH_SIZE) answer)
    (hanswer : answer.all (fun results => results.length = (tokens.take BATCH_SIZE).length) = true)
    (hothers : ∀ x ∈ invalidIds sent, ∀ w', w' ≠ w → x ∉ (s.workers w').unsent)
    (hp : p = if invalidIds sent = [] then .sending jobId (tokens.drop BATCH_SIZE)
        (retryRequired || answer.isNone || sent.any (·.result.retried))
      else .revoking jobId (invalidIds sent) (tokens.drop BATCH_SIZE)
        (retryRequired || answer.isNone || sent.any (·.result.retried))) :
    Inv ({ s with sent := sent ++ s.sent }.setWorker w p) := by
  have hgood := h.good w
  have hjobw : jobId ∈ (s.workers w).job := by rw [hphase]; rfl
  rw [hphase] at hgood
  have hbatch : sent.map (·.tokenId) = tokens.take BATCH_SIZE := by
    rw [hsent]
    exact tokenIds_sent hanswer
  have hjob : ∀ x ∈ sent, x.jobId = jobId := fun x hx => jobId_of_sent (hsent ▸ hx)
  have hsplit : (tokens.take BATCH_SIZE ++ tokens.drop BATCH_SIZE).Nodup := by
    rw [List.take_append_drop]
    exact hgood.nodup
  have hdisjoint := List.disjoint_of_nodup_append hsplit
  have hfresh : ∀ x ∈ sent, ¬ s.Spent jobId x.tokenId := fun x hx =>
    hgood.fresh jobId rfl _ (List.mem_of_mem_take (hbatch ▸ List.mem_map_of_mem hx))
  have hinvalid : ∀ x ∈ invalidIds sent, x ∈ p.unrevoked := by
    intro x hx
    rw [hp, if_neg (List.ne_nil_of_mem hx)]
    exact hx
  have hpjob : p.job = some jobId := by
    rw [hp]
    split <;> rfl
  have hpunsent : p.unsent = tokens.drop BATCH_SIZE := by
    rw [hp]
    split <;> rfl
  refine h.setWorker (law_send h.law hjob (hbatch ▸ hsplit.of_append_left) hfresh
    (by rw [hphase]; rfl) hinvalid) rfl ⟨fun j hj => ?_, ?_, fun j hj x hx hs => ?_, ?_⟩
      (fun w' hne => ?_) fun w' hne j hj hj' => ?_
  · rw [hpjob] at hj
    cases hj
    exact hgood.lease jobId rfl
  · rw [hpunsent]
    exact hsplit.of_append_right
  · rw [hpjob] at hj
    cases hj
    rw [hpunsent] at hx
    exact hgood.fresh jobId rfl x (List.mem_of_mem_drop hx)
      (spent_send hbatch (fun hx' => hdisjoint hx' hx) hs)
  · -- what was sent to without a retry is reached, or invalid
    have hdone : (retryRequired || answer.isNone || sent.any (·.result.retried)) = false →
        ∀ x ∈ s.tried jobId, x ∈ tokens.drop BATCH_SIZE ∨
          ⟨jobId, x, .success⟩ ∈ sent ++ s.sent ∨ x ∈ invalidIds sent ++ s.revoked := by
      intro hretry x hx
      rw [Bool.or_eq_false_iff, Bool.or_eq_false_iff] at hretry
      rcases hgood.settled hretry.1.1 x hx with hx | hx | hx
      · rw [← List.take_append_drop BATCH_SIZE tokens] at hx
        rcases List.mem_append.mp hx with hx | hx
        · exact .inr ((done_of_batch hbatch hjob hretry.2 hx).imp (List.mem_append_left _)
            (List.mem_append_left _))
        · exact .inl hx
      · exact .inr (.inl (List.mem_append_right _ hx))
      · exact .inr (.inr (List.mem_append_right _ hx))
    rw [hp]
    split
    · next hnil =>
      rw [hnil] at hdone
      exact hdone
    · exact hdone
  · refine (h.good w').mono rfl (fun _ _ => rfl) (fun j hj x hx hs => ?_)
      (List.subset_append_right _ _) (fun _ => id) fun _ _ => rfl
    obtain ⟨m, hm, rfl, hwhy⟩ := hs
    rcases List.mem_append.mp hm with hm | hm
    · rcases hwhy with ⟨heq, -⟩ | hbad
      · exact absurd ((hjob m hm).symm.trans heq).symm (h.others hjobw hne hj)
      · exact absurd hx (hothers _ (mem_invalidIds.mpr ⟨m, hm, hbad, rfl⟩) w' hne)
    · exact ⟨m, hm, rfl, hwhy⟩
  · rw [hpjob] at hj
    cases hj
    exact h.others hjobw hne hj' rfl

lemma inv_work {answer : Option (List SendResult)} (h : Inv s)
    (hcareful : s.Careful (.work w answer)) (hs : s.processNotificationJob w answer = some t) :
    Inv t := by
  unfold State.processNotificationJob at hs
  unfold State.Careful at hcareful
  have hgood := h.good w
  split at hs
  · cases hs
  · next jobId userId hphase =>
    cases hs
    simp only [hphase] at hcareful
    exact inv_read h hphase hcareful rfl
  · next jobId hphase =>
    cases hs
    rw [hphase] at hgood
    refine inv_complete h (by rw [hphase]; rfl) (by rw [hphase]; rfl) fun x hx => ?_
    rw [hgood.settled] at hx
    cases hx
  · next jobId retry hphase =>
    cases hs
    rw [hphase] at hgood
    cases retry with
    | true => exact inv_retry h (by rw [hphase]; rfl) (by rw [hphase]; rfl)
    | false =>
      refine inv_complete h (by rw [hphase]; rfl) (by rw [hphase]; rfl) fun x hx => ?_
      exact (hgood.settled rfl x hx).resolve_left List.not_mem_nil
  · next jobId t ts retry hphase =>
    simp only [hphase] at hcareful
    dsimp only at hs
    split at hs
    · next hanswer =>
      cases hs
      exact inv_send h hphase rfl hanswer hcareful rfl
    · cases hs
  · next jobId invalid rest retry hphase =>
    cases hs
    exact inv_revoke h hphase

/-- **One step keeps the invariant.** -/
lemma inv_step {e : Event} (h : Inv s) (hok : s.InLease e ∧ s.Careful e) (hs : s.step e = some t) :
    Inv t := by
  obtain ⟨hlease, hcareful⟩ := hok
  cases e with
  | wait ms =>
    cases hs
    exact inv_wait h hlease
  | enqueue jobId userId => exact inv_enqueue h hs
  | register tokenId userId => exact inv_register h hs
  | revokeToken tokenId userId => exact inv_revokeToken h hs
  | claim w jobId => exact inv_claim h hs
  | work w answer => exact inv_work h hcareful hs
  | fail w => exact inv_fail h hcareful hs

lemma inv_init : Inv .init where
  law := ⟨.nil, .nil, nofun, fun _ => nofun⟩
  good _ := good_idle
  alone _ _ _ := nofun

/-- **A careful run**: each phone gets each notification once. -/
theorem each_phone_once {es : List Event} (hrun : run State.step .init es = some s)
    (hok : Meets State.step (fun s e => s.InLease e ∧ s.Careful e) .init es) : s.EachPhoneOnce :=
  (run_invariant inv_step inv_init hok hrun).law

/-! ### Two phones -/

/-- Two tokens of a user and a job are there, and a worker has read the tokens. -/
def twoPhones : List Event :=
  [.register 1 7, .register 2 7, .enqueue 5 7, .claim 0 5, .work 0 none]

/-- Both phones are reached, one of them by a token that is gone. -/
def bothDone : List Event :=
  twoPhones ++
    [.work 0 (some [.success, .failed (some "messaging/registration-token-not-registered")]),
      .work 0 none, .work 0 none]

/-- One phone is reached, the other is not, and the job is done over. -/
def doneOver : List Event :=
  twoPhones ++ [.work 0 (some [.success, .failed (some "messaging/internal-error")]), .work 0 none,
    .wait 60000, .claim 0 5, .work 0 none, .work 0 (some [.success, .success])]

lemma workers_of_eq {es : List Event} {p : Phase} (hs : run State.step .init es = some s)
    (h : (run State.step .init es).map (fun s => s.workers 0) = some p) : s.workers 0 = p := by
  rw [hs] at h
  exact Option.some.inj h

lemma meets_bothDone :
    Meets State.step (fun s e => s.InLease e ∧ s.Careful e) .init bothDone := by
  have hstart : Meets State.step (fun s e => s.InLease e ∧ s.Careful e) .init (bothDone.take 4) :=
    meets_of_forall (by simp [bothDone, twoPhones, State.InLease, State.Careful])
  have hread : Meets State.step (fun s e => s.InLease e ∧ s.Careful e) .init (bothDone.take 5) := by
    refine hstart.append fun s hs => ⟨⟨trivial, ?_⟩, fun _ _ => trivial⟩
    have hphase : s.workers 0 = .claimed 5 7 := workers_of_eq hs (by decide +kernel)
    have hsent : (run State.step .init (bothDone.take 4)).map (·.sent) = some [] := by
      decide +kernel
    rw [hs] at hsent
    have hnone : s.sent = [] := Option.some.inj hsent
    simp only [State.Careful, hphase]
    rintro t - ⟨x, hx, -⟩
    rw [hnone] at hx
    cases hx
  have hsent : Meets State.step (fun s e => s.InLease e ∧ s.Careful e) .init (bothDone.take 6) := by
    refine hread.append fun s hs => ⟨⟨trivial, ?_⟩, fun _ _ => trivial⟩
    have hphase : s.workers 0 = .sending 5 [1, 2] false := workers_of_eq hs (by decide +kernel)
    simp only [State.Careful, hphase]
    intro t _ w hw
    have hidle : s.workers w = .idle :=
      State.workers_of_run (by simpa [bothDone, twoPhones, Event.worker] using hw.symm) hs
    rw [hidle]
    exact List.not_mem_nil
  have hrevoked : Meets State.step (fun s e => s.InLease e ∧ s.Careful e) .init
      (bothDone.take 7) := by
    refine hsent.append fun s hs => ⟨⟨trivial, ?_⟩, fun _ _ => trivial⟩
    have hphase : s.workers 0 = .revoking 5 [2] [] false := workers_of_eq hs (by decide +kernel)
    simp only [State.Careful, hphase]
  refine hrevoked.append fun s hs => ⟨⟨trivial, ?_⟩, fun _ _ => trivial⟩
  have hphase : s.workers 0 = .sending 5 [] false := workers_of_eq hs (by decide +kernel)
  simp only [State.Careful, hphase]
  exact nofun

theorem each_phone_once_bothDone :
    ∃ s, run State.step .init bothDone = some s ∧ s.EachPhoneOnce := by
  have hrun : ∃ s, run State.step .init bothDone = some s :=
    Option.isSome_iff_exists.mp (by decide +kernel)
  obtain ⟨s, hrun⟩ := hrun
  exact ⟨s, hrun, each_phone_once hrun meets_bothDone⟩

lemma inLease_doneOver : Meets State.step State.InLease .init doneOver := by
  have hstart : Meets State.step State.InLease .init (doneOver.take 7) :=
    meets_of_forall (by simp [doneOver, twoPhones, State.InLease])
  refine hstart.append fun s hs => ⟨fun w j hj => ?_, fun _ _ =>
    meets_of_forall (by simp [State.InLease])⟩
  have hidle : s.workers w = .idle := by
    rcases eq_or_ne w 0 with rfl | hne
    · have hrun : (run State.step .init (doneOver.take 7)).map (fun s => s.workers 0) =
          some .idle := rfl
      rw [hs] at hrun
      exact Option.some.inj hrun
    · exact State.workers_of_run (by simpa [doneOver, twoPhones, Event.worker] using hne.symm) hs
  rw [hidle] at hj
  cases hj

/-- The first phone is reached twice. -/
theorem not_each_phone_once : ¬ ∀ es s, run State.step .init es = some s →
    Meets State.step State.InLease .init es → s.EachPhoneOnce := by
  intro h
  have hsent : (run State.step .init doneOver).map (·.sent) = some [⟨5, 1, .success⟩,
      ⟨5, 2, .success⟩, ⟨5, 1, .success⟩, ⟨5, 2, .failed (some "messaging/internal-error")⟩] := by
    decide +kernel
  obtain ⟨s, hrun, hsent⟩ := Option.map_eq_some_iff.mp hsent
  have honce := (h doneOver s hrun inLease_doneOver).once
  rw [hsent] at honce
  exact (List.pairwise_cons.mp honce).1 ⟨5, 1, .success⟩ (by decide) rfl rfl rfl

end MouseKeeper.Worker
