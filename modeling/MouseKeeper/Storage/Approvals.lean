import Mathlib.Algebra.GroupWithZero.Nat
import MouseKeeper.Storage.Alone

/-!
The candidates that `submit` approves.

A candidate that fits is approved when no reservation of its version is in the table, whatever has
become of that reservation.
-/

namespace MouseKeeper.Storage.SmartCache

open MouseKeeper.ReadCommitted
open Globs (matchesExcludedPattern)

/-! ### The claim -/

/-- The device may submit candidates for the room, under the policy. -/
structure Admitted (env : Environment) (q : Submit) (policy : Policy) (d : Db) : Prop where
  enabled : env.smartCacheEnabled = true
  storage : env.objectStorage = true
  room : ∃ r, d.room q.userId q.roomId = some r ∧ r.desktopDeviceId = q.deviceId
  device : (d.device q.userId q.deviceId).isSome
  deviceRoom : (d.deviceRoom q.userId q.deviceId q.roomId).isSome
  policy : d.policies.find? (fun p => p.roomId = q.roomId && p.enabled) = some policy

/-- The identifiers that the request draws are new. -/
structure Fresh (q : Submit) (d : Db) : Prop where
  batch : ∀ b ∈ d.batches, b.id ≠ q.newId
  reservation : ∀ c ∈ q.candidates, ∀ r ∈ d.reservations, r.id ≠ c.newId
  apart : (q.candidates.map (·.newId)).Nodup

/-- The candidates in the order in which their turns come. -/
def turns (q : Submit) : List Candidate := q.candidates.insertionSort (candidateOrder · ·)

/-- The bytes in use before the candidates. -/
def allocated (q : Submit) (d : Db) : ℕ :=
  availableBytes q.roomId d + reservedBytes q.roomId d.now d

def totalBytes (candidates : List Candidate) : ℕ := (candidates.map (·.sizeBytes)).sum

/-- The policy has nothing against the candidate. -/
def Permits (policy : Policy) (c : Candidate) : Prop :=
  matchesExcludedPattern c.sourceRelativePath policy.excludedPatterns = false ∧
    c.sizeBytes ≤ policy.maxFileBytes

instance (policy : Policy) (c : Candidate) : Decidable (Permits policy c) :=
  inferInstanceAs (Decidable (_ ∧ _))

/-- The candidate fits the policy and the free quota, also after those whose turn comes first. -/
structure Fits (q : Submit) (policy : Policy) (d : Db) (c : Candidate) : Prop where
  permits : Permits policy c
  quota : allocated q d + totalBytes ((turns q).takeWhile (· ≠ c)) + c.sizeBytes ≤
    policy.quotaBytes

/-- The reservation is one of the version of the candidate. -/
def ofCandidate (q : Submit) (c : Candidate) (r : Reservation) : Bool :=
  sameVersion q.roomId c.sourceRelativePath c.sourceVersionHash r

/-- The answer has an open reservation of the version. -/
def Approves (q : Submit) (now : ℕ) (c : Candidate) (answer : Except Code Response) : Prop :=
  ∃ batch rs, answer = .ok (.submitted batch rs) ∧
    ∃ r ∈ rs, ofCandidate q c r = true ∧ isReserved q.roomId now r = true

variable {env : Environment} {b : Backend} {q : Submit} {policy : Policy} {c : Candidate} {d : Db}

/-! ### One turn -/

/-- Evicting changes files and jobs, and goes on. -/
lemma eval_evict (policy : Policy) (c : Candidate) (done : List CachedFile → ℤ → Program)
    (evictable : List CachedFile) (a : ℤ) (d : Db) :
    ∃ l a' d', (evict policy c done evictable a).eval d = (done l a').eval d' ∧
      d'.reservations = d.reservations ∧ d'.now = d.now := by
  induction evictable generalizing a d with
  | nil => exact ⟨[], a, d, rfl, rfl, rfl⟩
  | cons f evictable ih =>
    rw [evict]
    split
    · exact ⟨_, _, d, rfl, rfl, rfl⟩
    split
    · exact ⟨_, _, d, rfl, rfl, rfl⟩
    rw [Table.eval_update]
    split
    · exact ih a _
    · exact ih _ _

/-- Nothing is evicted for a candidate that fits. -/
lemma evict_of_fits {done : List CachedFile → ℤ → Program} {evictable : List CachedFile} {a : ℤ}
    (h : a + c.sizeBytes ≤ policy.quotaBytes) :
    evict policy c done evictable a = done evictable a := by
  cases evictable with
  | nil => rfl
  | cons f evictable => rw [evict, if_pos h]

lemma eval_reserve_none {done : Option Reservation → Program} {x : Reservation}
    (hx : x ∈ d.reservations) (h : ofCandidate q c x = true) :
    (reserve q c done).eval d = (done none).eval d := by
  rw [reserve, eval_clock, Table.eval_insert, if_pos]
  exact List.any_eq_true.mpr ⟨x, hx, by rw [Bool.or_eq_true]; exact .inr h⟩

lemma eval_reserve_some {done : Option Reservation → Program}
    (hid : ∀ x ∈ d.reservations, x.id ≠ c.newId)
    (h : ∀ x ∈ d.reservations, ofCandidate q c x = false) :
    (reserve q c done).eval d = (done (some (newReservation q c d.now))).eval
      { d with reservations := d.reservations ++ [newReservation q c d.now] } := by
  rw [reserve, eval_clock, Table.eval_insert, if_neg]
  · rfl
  · rw [Bool.not_eq_true, List.any_eq_false]
    intro x hx
    rw [Bool.or_eq_true, not_or, decide_eq_true_eq]
    exact ⟨hid x hx, Bool.eq_false_iff.mp (h x hx)⟩

lemma isReserved_newReservation (now : ℕ) :
    isReserved q.roomId now (newReservation q c now) = true := by
  simp [isReserved, newReservation]

lemma ofCandidate_newReservation (now : ℕ) : ofCandidate q c (newReservation q c now) = true := by
  simp [ofCandidate, sameVersion, newReservation]

/-! ### All turns -/

/-- `approve` with the answer of `submit`. -/
def approveAll (q : Submit) (policy : Policy) : List Candidate → List CachedFile → ℤ →
    List Reservation → Program :=
  approve q policy fun approved => answer (.submitted (newBatch q) approved)

/-- The end of a turn, with what is left to evict and what is allocated. -/
def settle (q : Submit) (policy : Policy) (c : Candidate) (candidates : List Candidate)
    (approved : List Reservation) (evictable : List CachedFile) (a : ℤ) : Program :=
  if policy.quotaBytes < a + c.sizeBytes then approveAll q policy candidates evictable a approved
  else reserve q c fun
    | some row => approveAll q policy candidates evictable (a + c.sizeBytes) (approved ++ [row])
    | none => approveAll q policy candidates evictable a approved

lemma approveAll_cons (candidates : List Candidate) (evictable : List CachedFile) (a : ℤ)
    (approved : List Reservation) :
    approveAll q policy (c :: candidates) evictable a approved =
      if Permits policy c then
        evict policy c (settle q policy c candidates approved) evictable a
      else approveAll q policy candidates evictable a approved := by
  by_cases hpath : matchesExcludedPattern c.sourceRelativePath policy.excludedPatterns = true
  · have hp : ¬ Permits policy c := by
      rintro ⟨h, -⟩
      rw [hpath] at h
      cases h
    rw [approveAll, approve, if_pos hpath, if_neg hp]
  · by_cases hsize : policy.maxFileBytes < c.sizeBytes
    · have hp : ¬ Permits policy c := fun h => absurd h.2 (not_le.mpr hsize)
      rw [approveAll, approve, if_neg hpath, if_pos hsize, if_neg hp]
    · have hp : Permits policy c := ⟨Bool.not_eq_true _ ▸ hpath, not_lt.mp hsize⟩
      rw [approveAll, approve, if_neg hpath, if_neg hsize, if_pos hp]
      rfl

/-- What is approved was approved before, or is new and of a version that had no reservation. -/
lemma approveAll_only (q : Submit) (policy : Policy) (candidates : List Candidate)
    (evictable : List CachedFile) (a : ℤ) (approved : List Reservation) (d : Db) : ∃ rs d',
      (approveAll q policy candidates evictable a approved).eval d =
        (.ok (.submitted (newBatch q) rs), d') ∧ approved ⊆ rs ∧
      ∀ r ∈ rs, r ∈ approved ∨ ∃ c ∈ candidates, r = newReservation q c d.now ∧
        ∀ x ∈ d.reservations, ofCandidate q c x = false := by
  induction candidates generalizing evictable a approved d with
  | nil => exact ⟨approved, d, rfl, List.Subset.refl _, fun r hr => .inl hr⟩
  | cons c candidates ih =>
    -- the turn leaves the candidate out
    have hskip : ∀ (d' : Db) (l : List CachedFile) (a' : ℤ), d'.reservations = d.reservations →
        d'.now = d.now → ∃ rs d'', (approveAll q policy candidates l a' approved).eval d' =
          (.ok (.submitted (newBatch q) rs), d'') ∧ approved ⊆ rs ∧
        ∀ r ∈ rs, r ∈ approved ∨ ∃ x ∈ c :: candidates, r = newReservation q x d.now ∧
          ∀ y ∈ d.reservations, ofCandidate q x y = false := by
      intro d' l a' hreservations hnow
      obtain ⟨rs, d'', he, hsub, hall⟩ := ih l a' approved d'
      refine ⟨rs, d'', he, hsub, fun r hr => (hall r hr).imp_right ?_⟩
      rintro ⟨x, hx, hr, hnone⟩
      exact ⟨x, List.mem_cons_of_mem c hx, hnow ▸ hr, hreservations ▸ hnone⟩
    rw [approveAll_cons]
    split
    swap
    · exact hskip d _ _ rfl rfl
    obtain ⟨l, a', d', he, hreservations, hnow⟩ :=
      eval_evict policy c (settle q policy c candidates approved) evictable a d
    rw [he, settle]
    split
    · exact hskip d' _ _ hreservations hnow
    rw [reserve, eval_clock, Table.eval_insert]
    split
    · exact hskip d' _ _ hreservations hnow
    next hany =>
    rw [Bool.not_eq_true, List.any_eq_false] at hany
    have hnone : ∀ x ∈ d.reservations, ofCandidate q c x = false := by
      intro x hx
      have hx' := hany x (show x ∈ d'.reservations from hreservations ▸ hx)
      rw [Bool.or_eq_true, not_or] at hx'
      exact Bool.eq_false_iff.mpr hx'.2
    obtain ⟨rs, d'', he', hsub, hall⟩ := ih l (a' + c.sizeBytes)
      (approved ++ [newReservation q c d'.now])
      { d' with reservations := d'.reservations ++ [newReservation q c d'.now] }
    refine ⟨rs, d'', he', fun r hr => hsub (List.mem_append_left _ hr), fun r hr => ?_⟩
    rcases hall r hr with hr | ⟨x, hx, hr, hx'⟩
    · rcases List.mem_append.mp hr with hr | hr
      · exact .inl hr
      · exact .inr ⟨c, List.mem_cons_self, hnow ▸ List.mem_singleton.mp hr, hnone⟩
    · refine .inr ⟨x, List.mem_cons_of_mem c hx, hnow ▸ hr, fun y hy => ?_⟩
      exact hx' y (List.mem_append_left _ (hreservations ▸ hy))

/-- A candidate that fits is approved, if its version has no reservation. -/
lemma approveAll_fits (evictable : List CachedFile) (approved : List Reservation) (d : Db)
    {candidates : List Candidate} {a : ℤ} (hc : c ∈ candidates) (hpermits : Permits policy c)
    (hquota : a + totalBytes (candidates.takeWhile (· ≠ c)) + c.sizeBytes ≤ policy.quotaBytes)
    (hids : ∀ x ∈ candidates, ∀ r ∈ d.reservations, r.id ≠ x.newId)
    (hapart : (candidates.map (·.newId)).Nodup)
    (hnone : ∀ r ∈ d.reservations, ofCandidate q c r = false) : ∃ rs d',
      (approveAll q policy candidates evictable a approved).eval d =
        (.ok (.submitted (newBatch q) rs), d') ∧
      ∃ r ∈ rs, ofCandidate q c r = true ∧ isReserved q.roomId d.now r = true := by
  induction candidates generalizing evictable a approved d with
  | nil => cases hc
  | cons x candidates ih =>
    have hids' : ∀ y ∈ candidates, ∀ r ∈ d.reservations, r.id ≠ y.newId :=
      fun y hy => hids y (List.mem_cons_of_mem x hy)
    rw [List.map_cons, List.nodup_cons] at hapart
    rw [approveAll_cons]
    by_cases hx : x = c
    · -- its turn has come
      subst hx
      have hfit : a + x.sizeBytes ≤ policy.quotaBytes := by
        rw [List.takeWhile_cons_of_neg (by simp)] at hquota
        simpa [totalBytes] using hquota
      rw [if_pos hpermits, evict_of_fits hfit, settle, if_neg (not_lt.mpr hfit),
        eval_reserve_some (hids x List.mem_cons_self) hnone]
      obtain ⟨rs, d', he, hsub, -⟩ := approveAll_only q policy candidates
        evictable (a + x.sizeBytes) (approved ++ [newReservation q x d.now])
        { d with reservations := d.reservations ++ [newReservation q x d.now] }
      exact ⟨rs, d', he, _, hsub (List.mem_append_right _ (List.mem_singleton_self _)),
        ofCandidate_newReservation _, isReserved_newReservation _⟩
    have hc' : c ∈ candidates := (List.mem_cons.mp hc).resolve_left (Ne.symm hx)
    rw [List.takeWhile_cons_of_pos (by simpa using hx), totalBytes, List.map_cons,
      List.sum_cons, ← totalBytes, Int.natCast_add] at hquota
    by_cases hp : Permits policy x
    swap
    · rw [if_neg hp]
      exact ih evictable _ _ hc' (by omega) hids' hapart.2 hnone
    have hfit : a + x.sizeBytes ≤ policy.quotaBytes := by omega
    rw [if_pos hp, evict_of_fits hfit, settle, if_neg (not_lt.mpr hfit)]
    by_cases hconflict : ∃ r ∈ d.reservations, ofCandidate q x r = true
    · obtain ⟨r, hr, hrx⟩ := hconflict
      rw [eval_reserve_none hr hrx]
      exact ih evictable _ _ hc' (by omega) hids' hapart.2 hnone
    have hfree : ∀ r ∈ d.reservations, ofCandidate q x r = false :=
      fun r hr => Bool.eq_false_iff.mpr fun h => hconflict ⟨r, hr, h⟩
    rw [eval_reserve_some (hids x List.mem_cons_self) hfree]
    by_cases hsame : ofCandidate q c (newReservation q x d.now) = true
    · -- a candidate of the same version comes first
      obtain ⟨rs, d', he, hsub, -⟩ := approveAll_only q policy candidates
        evictable (a + x.sizeBytes) (approved ++ [newReservation q x d.now])
        { d with reservations := d.reservations ++ [newReservation q x d.now] }
      exact ⟨rs, d', he, _, hsub (List.mem_append_right _ (List.mem_singleton_self _)), hsame,
        isReserved_newReservation _⟩
    · refine ih evictable _ _ hc' (by omega) (fun y hy r hr => ?_) hapart.2 fun r hr => ?_
      · rcases List.mem_append.mp hr with hr | hr
        · exact hids' y hy r hr
        · rw [List.mem_singleton.mp hr]
          exact fun he => hapart.1 (List.mem_map.mpr ⟨y, hy, he.symm⟩)
      · rcases List.mem_append.mp hr with hr | hr
        · exact hnone r hr
        · rw [List.mem_singleton.mp hr]
          exact Bool.eq_false_iff.mpr hsame

/-! ### The request -/

/-- What can be evicted, in this order. -/
def evictables (q : Submit) (d : Db) : List CachedFile :=
  (d.files.filter fun f => isAvailable q.roomId f && !f.manualPin).insertionSort
    (evictionOrder · ·)

lemma eval_replay (h : Admitted env q policy d) {replay : Batch}
    (hreplay : d.batches.find? (hasKey q) = some replay) : (submit env b q).eval d =
      (if replay.desktopDeviceId ≠ q.deviceId ∨ replay.roomId ≠ q.roomId ∨
          replay.requestHash ≠ q.requestHash then refuse .idempotencyConflict
        else answer (.submitted replay
          (d.reservations.filter fun r => r.batchId = replay.id))).eval d := by
  obtain ⟨r, hr, hdevice⟩ := h.room
  rw [submit, enabled, if_pos h.enabled, assertConfigured, if_pos h.storage, room, eval_select, hr]
  dsimp only
  rw [if_neg (not_not.mpr hdevice), lockRoom, Txn.eval_lock,
    eval_lockConnection h.device h.deviceRoom, eval_select, hreplay]
  dsimp only
  split
  · rfl
  · rfl

lemma eval_new (h : Admitted env q policy d) (hnone : d.batches.find? (hasKey q) = none) :
    (submit env b q).eval d = (submitBatch q).eval d := by
  obtain ⟨r, hr, hdevice⟩ := h.room
  rw [submit, enabled, if_pos h.enabled, assertConfigured, if_pos h.storage, room, eval_select, hr]
  dsimp only
  rw [if_neg (not_not.mpr hdevice), lockRoom, Txn.eval_lock,
    eval_lockConnection h.device h.deviceRoom, eval_select, hnone]

/-- A request with a new key is one turn after the other. -/
lemma eval_submit (h : Admitted env q policy d) (hbatch : ∀ x ∈ d.batches, x.id ≠ q.newId)
    (hkey : ∀ x ∈ d.batches, hasKey q x = false) : (submit env b q).eval d =
      (approveAll q policy (turns q) (evictables q d) (allocated q d) []).eval
        { d with batches := d.batches ++ [newBatch q] } := by
  have hfind : d.batches.find? (hasKey q) = none :=
    List.find?_eq_none.mpr fun x hx => Bool.eq_false_iff.mp (hkey x hx)
  have hany : ¬ ((batches.rows d).any fun x => x.id = q.newId || hasKey q x) = true := by
    rw [Bool.not_eq_true, List.any_eq_false]
    intro x hx
    rw [Bool.or_eq_true, not_or, decide_eq_true_eq]
    exact ⟨hbatch x hx, Bool.eq_false_iff.mp (hkey x hx)⟩
  rw [eval_new h hfind, submitBatch, Table.eval_insert, if_neg hany]
  dsimp only
  rw [eval_select]
  have hpolicy : (batches.put (batches.rows d ++ [newBatch q]) d).policies.find?
      (fun p => p.roomId = q.roomId && p.enabled) = some policy := h.policy
  rw [hpolicy]
  rfl

/-- The answer to a request that has been served before has no reservation that was not there. -/
lemma not_approves_replay (h : Admitted env q policy d) {x : Batch} (hx : x ∈ d.batches)
    (hkey : hasKey q x = true)
    (hfree : ∀ r ∈ d.reservations, ofCandidate q c r = true → isReserved q.roomId d.now r = false) :
    ¬ Approves q d.now c ((submit env b q).eval d).1 := by
  obtain ⟨replay, hreplay⟩ :=
    Option.isSome_iff_exists.mp (List.find?_isSome.mpr ⟨x, hx, hkey⟩)
  rw [eval_replay h hreplay]
  rintro ⟨batch, rs, he, r, hr, hof, hopen⟩
  split at he
  · cases he
  · cases he
    have hfalse := hfree r (List.mem_of_mem_filter hr) hof
    rw [hopen] at hfalse
    cases hfalse

/-- **A candidate that fits** is approved exactly if its request is new and no reservation of its
version is in the table. -/
theorem approves_iff (ha : Admitted env q policy d) (hf : Fresh q d) (hc : c ∈ q.candidates)
    (hfits : Fits q policy d c)
    (hfree : ∀ r ∈ d.reservations, ofCandidate q c r = true → isReserved q.roomId d.now r = false) :
    Approves q d.now c ((submit env b q).eval d).1 ↔
      (∀ x ∈ d.batches, hasKey q x = false) ∧
        ∀ r ∈ d.reservations, ofCandidate q c r = false := by
  by_cases hkey : ∀ x ∈ d.batches, hasKey q x = false
  swap
  · refine iff_of_false ?_ fun h => hkey h.1
    obtain ⟨x, hx, hxkey⟩ := by simpa using hkey
    exact not_approves_replay ha hx hxkey hfree
  rw [eval_submit ha hf.batch hkey]
  constructor
  · rintro ⟨batch, rs, he, r, hr, hof, -⟩
    refine ⟨hkey, ?_⟩
    obtain ⟨rs', d', he', -, honly⟩ := approveAll_only q policy (turns q) (evictables q d)
      (allocated q d) [] { d with batches := d.batches ++ [newBatch q] }
    rw [he'] at he
    cases he
    rcases honly r hr with hr | ⟨x, -, rfl, hnone⟩
    · cases hr
    · intro y hy
      obtain ⟨h₁, h₂, h₃⟩ : q.roomId = q.roomId ∧ x.sourceRelativePath = c.sourceRelativePath ∧
          x.sourceVersionHash = c.sourceVersionHash := by
        simpa [ofCandidate, sameVersion, newReservation] using hof
      have hy' := hnone y hy
      rwa [ofCandidate, h₂, h₃] at hy'
  · rintro ⟨-, hnone⟩
    have hperm : (turns q).Perm q.candidates := List.perm_insertionSort _ _
    obtain ⟨rs, d', he, hr⟩ := approveAll_fits (q := q) (a := allocated q d) (evictables q d) []
      { d with batches := d.batches ++ [newBatch q] } (hperm.mem_iff.mpr hc) hfits.permits
      (by exact_mod_cast hfits.quota)
      (fun x hx => hf.reservation x (hperm.mem_iff.mp hx)) ((hperm.map _).nodup_iff.mpr hf.apart)
      hnone
    exact ⟨newBatch q, rs, congrArg Prod.fst he, hr⟩

/-- A file of ten bytes. -/
def sampleCandidate (newId : ℕ) : Candidate := ⟨newId, "a.txt", "1", "h1", 10, 20, false⟩

def sampleSubmit (key : String) (newId : ℕ) : Submit :=
  ⟨1, 9, key, 3, [sampleCandidate (newId + 1)], "digest", newId⟩

def samplePolicy : Policy := ⟨3, true, 100, 50, [], []⟩

lemma admitted_sample (key : String) (newId : ℕ) {d : Db} (hrooms : d.rooms = sampleTables.rooms)
    (hdevices : d.devices = sampleTables.devices) (hpolicies : d.policies = sampleTables.policies) :
    Admitted sampleEnvironment (sampleSubmit key newId) samplePolicy d where
  enabled := rfl
  storage := rfl
  room := ⟨⟨3, 1, 9, true⟩, by rw [Db.room, hrooms]; rfl, rfl⟩
  device := by rw [Db.device, hdevices]; rfl
  deviceRoom := by rw [Db.deviceRoom, hrooms]; rfl
  policy := by rw [hpolicies]; rfl

/-- The file is submitted for the first time. -/
theorem approves_iff_sample : Approves (sampleSubmit "k" 1) 0 (sampleCandidate 2)
    ((submit sampleEnvironment sampleBackend (sampleSubmit "k" 1)).eval sampleTables).1 := by
  have hfresh : Fresh (sampleSubmit "k" 1) sampleTables :=
    ⟨fun _ h => absurd h List.not_mem_nil, fun _ _ _ h => absurd h List.not_mem_nil, by decide⟩
  have hfits : Fits (sampleSubmit "k" 1) samplePolicy sampleTables (sampleCandidate 2) :=
    ⟨by decide +kernel, by decide +kernel⟩
  exact (approves_iff (admitted_sample "k" 1 rfl rfl rfl) hfresh (List.mem_singleton_self _) hfits
    fun _ h => absurd h List.not_mem_nil).mpr
    ⟨fun _ h => absurd h List.not_mem_nil, fun _ h => absurd h List.not_mem_nil⟩

/-- The reservation is cancelled. -/
def cancelledTables : Db := history sampleEnvironment sampleTables
  [.request sampleBackend (.submit (sampleSubmit "k" 1)),
    .request sampleBackend (.cancelReservation ⟨1, 9, 2⟩)]

/-- A file whose reservation has been cancelled is not approved again. -/
theorem not_approves_iff : ¬ ∀ env b q policy c works,
    let d := history env sampleTables works
    Admitted env q policy d → Fresh q d → c ∈ q.candidates → Fits q policy d c →
    (∀ f ∈ d.files, hasVersion q.roomId c.sourceRelativePath c.sourceVersionHash f = true →
      f.freshnessStatus ≠ .verifiedCurrent) →
    (∀ r ∈ d.reservations, ofCandidate q c r = true → isReserved q.roomId d.now r = false) →
    Approves q d.now c ((submit env b q).eval d).1 := by
  intro h
  have hfresh : Fresh (sampleSubmit "k2" 3) cancelledTables :=
    ⟨by decide +kernel, by decide +kernel, by decide⟩
  have hfits : Fits (sampleSubmit "k2" 3) samplePolicy cancelledTables (sampleCandidate 4) :=
    ⟨by decide +kernel, by decide +kernel⟩
  obtain ⟨batch, rs, he, r, hr, -⟩ := h sampleEnvironment sampleBackend (sampleSubmit "k2" 3)
    samplePolicy (sampleCandidate 4)
    [.request sampleBackend (.submit (sampleSubmit "k" 1)),
      .request sampleBackend (.cancelReservation ⟨1, 9, 2⟩)]
    (admitted_sample "k2" 3 rfl rfl rfl) hfresh (List.mem_singleton_self _) hfits
    (by decide +kernel) (by decide +kernel)
  have hcode : ((submit sampleEnvironment sampleBackend (sampleSubmit "k2" 3)).eval
      cancelledTables).1 = .ok (.submitted (newBatch (sampleSubmit "k2" 3)) []) := by rfl
  rw [cancelledTables] at hcode
  rw [hcode] at he
  cases he
  cases hr

end MouseKeeper.Storage.SmartCache
