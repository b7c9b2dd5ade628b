import MouseKeeper.Server.Presence

/-!
Presence tells the truth.

A monitor looks for the key, reads the device and forgets it in three statements. Between the
first and the last a heartbeat may have stored a key again.
-/

namespace MouseKeeper.Server

open MouseKeeper.Machine

namespace PresenceState

variable (s : PresenceState)

/-! ### What is asked -/

structure Truthful : Prop where
  /-- A device with a key is known. -/
  known : ∀ d, s.keys d ≠ none → s.known d = true
  /-- So is one whose key expired after it was announced, until an `OFFLINE` is published. -/
  awaited : ∀ d, s.owed d = true → s.known d = true
  /-- No `OFFLINE` was published for a live device. -/
  offline : ∀ e ∈ s.published, e.presence = .offline → e.live = false
  /-- A revoked device has no key once the revoke has returned. -/
  revoked : ∀ r d, s.revokes r = .returned d → s.keys d = none

/-! ### The condition -/

/-- A pass that found no key of a device forgets it while there is still none, and not for good
when an `OFFLINE` is owed; nor does a revoke then, and its deletion of a key does not fail. -/
def Steady : PresenceEvent → Prop
  | .passGoesOn m =>
    match s.monitors m with
    | .removing d userId _ => s.keys d = none ∧ (userId = none → s.owed d = false)
    | _ => True
  | .revokeGoesOn r =>
    match s.revokes r with
    | .forgetting d => s.owed d = false
    | _ => True
  | .revokeFails r =>
    match s.revokes r with
    | .deleting d => s.keys d = none
    | _ => True
  | _ => True

instance : DecidablePred s.Steady := fun e =>
  match e with
  | .passGoesOn m =>
    match h : s.monitors m with
    | .removing d userId _ =>
      decidable_of_iff (s.keys d = none ∧ (userId = none → s.owed d = false))
        (by simp only [Steady, h])
    | .idle | .checking _ _ | .refreshing _ _ | .selecting _ _ => .isTrue (by simp only [Steady, h])
  | .revokeGoesOn r =>
    match h : s.revokes r with
    | .forgetting d => decidable_of_iff (s.owed d = false) (by simp only [Steady, h])
    | .idle | .deleting _ | .returned _ => .isTrue (by simp only [Steady, h])
  | .revokeFails r =>
    match h : s.revokes r with
    | .deleting d => decidable_of_iff (s.keys d = none) (by simp only [Steady, h])
    | .idle | .forgetting _ | .returned _ => .isTrue (by simp only [Steady, h])
  | .pair _ _ | .expireKey _ | .heartbeat _ _ _ | .heartbeatGoesOn _ | .heartbeatFails _
  | .pass _ _ | .passFails _ | .revoke _ _ => .isTrue trivial

end PresenceState

/-! ### What lasts -/

def PresenceState.IsActive (s : PresenceState) (d : ℕ) : Prop :=
  ∃ device, s.devices d = some device ∧ device.active = true

def PresenceState.IsRevoked (s : PresenceState) (d : ℕ) : Prop :=
  ∃ device, s.devices d = some device ∧ device.active = false

variable {s t : PresenceState}

lemma PresenceState.IsRevoked.not_active {d : ℕ} (h : s.IsRevoked d) (h' : s.IsActive d) : False := by
  obtain ⟨device, hd, hno⟩ := h
  obtain ⟨device', hd', hyes⟩ := h'
  cases hd.symm.trans hd'
  rw [hno] at hyes
  cases hyes

/-- A heartbeat has the lock of an active device, and a key that it has stored is there until the
next one is gone. -/
def HeartbeatPhase.Good (s : PresenceState) (h : ℕ) : HeartbeatPhase → Prop
  | .idle => True
  | .locked d _ presence => h ∈ s.locks d ∧ s.IsActive d ∧ presence ≠ .offline
  | .stored d _ presence life => h ∈ s.locks d ∧ s.IsActive d ∧ presence ≠ .offline ∧
    life ≤ s.life d ∧ (life = s.life d → s.keys d ≠ none)

def RevokePhase.Good (s : PresenceState) : RevokePhase → Prop
  | .idle => True
  | .deleting d => s.IsRevoked d
  | .forgetting d | .returned d => s.IsRevoked d ∧ s.keys d = none

namespace PresenceState

structure Inv (s : PresenceState) : Prop where
  known : ∀ d, s.keys d ≠ none → s.known d = true
  awaited : ∀ d, s.owed d = true → s.known d = true
  offline : ∀ e ∈ s.published, e.presence = .offline → e.live = false
  live : ∀ d, s.live d = true → s.keys d ≠ none
  heartbeats : ∀ h, (s.heartbeats h).Good s h
  revokes : ∀ r, (s.revokes r).Good s

lemma Inv.truthful (h : Inv s) : s.Truthful where
  known := h.known
  awaited := h.awaited
  offline := h.offline
  revoked r d hr := by
    have hgood := h.revokes r
    rw [hr] at hgood
    exact hgood.2

end PresenceState

/-- What other calls may do to the device of a heartbeat. -/
lemma HeartbeatPhase.Good.mono {h : ℕ} {p : HeartbeatPhase} (hp : p.Good s h)
    (hlocks : ∀ d, h ∈ s.locks d → h ∈ t.locks d)
    (hactive : ∀ d, h ∈ s.locks d → s.IsActive d → t.IsActive d)
    (hkeys : ∀ d, s.life d < t.life d ∨ t.life d = s.life d ∧ (s.keys d ≠ none → t.keys d ≠ none)) :
    p.Good t h := by
  cases p with
  | idle => trivial
  | locked d userId presence =>
    obtain ⟨hlock, hd, hpresence⟩ := hp
    exact ⟨hlocks d hlock, hactive d hlock hd, hpresence⟩
  | stored d userId presence life =>
    obtain ⟨hlock, hd, hpresence, hle, hkey⟩ := hp
    refine ⟨hlocks d hlock, hactive d hlock hd, hpresence, ?_, fun heq => ?_⟩
    · rcases hkeys d with hlt | ⟨heq, -⟩
      · exact Nat.le_trans hle (Nat.le_of_lt hlt)
      · rwa [heq]
    · rcases hkeys d with hlt | ⟨hlife, hkeep⟩
      · exact absurd (heq ▸ hle) (Nat.not_le.mpr hlt)
      · exact hkeep (hkey (heq.trans hlife))

lemma RevokePhase.Good.mono {p : RevokePhase} (hp : p.Good s)
    (hrevoked : ∀ d, s.IsRevoked d → t.IsRevoked d)
    (hkeys : ∀ d, s.IsRevoked d → s.keys d = none → t.keys d = none) : p.Good t := by
  cases p with
  | idle => trivial
  | deleting d => exact hrevoked d hp
  | forgetting d => exact ⟨hrevoked d hp.1, hkeys d hp.1 hp.2⟩
  | returned d => exact ⟨hrevoked d hp.1, hkeys d hp.1 hp.2⟩

namespace PresenceState

/-! ### The changes, one by one -/

lemma inv_init : Inv .init where
  known _ h := absurd rfl h
  awaited _ := nofun
  offline _ := nofun
  live _ := nofun
  heartbeats _ := trivial
  revokes _ := trivial

lemma Inv.setMonitor (h : Inv s) (m : ℕ) (p : MonitorPhase) : Inv (s.setMonitor m p) :=
  ⟨h.known, h.awaited, h.offline, h.live, h.heartbeats, h.revokes⟩

lemma Inv.setHeartbeat (h : Inv s) {i : ℕ} {p : HeartbeatPhase} (hp : p.Good s i) :
    Inv (s.setHeartbeat i p) := by
  refine ⟨h.known, h.awaited, h.offline, h.live, fun j => ?_, h.revokes⟩
  rcases eq_or_ne j i with rfl | hne
  · rw [heartbeats_setHeartbeat]
    exact hp
  · rw [heartbeats_setHeartbeat_of_ne hne]
    exact h.heartbeats j

lemma Inv.setRevoke (h : Inv s) {r : ℕ} {p : RevokePhase} (hp : p.Good s) :
    Inv (s.setRevoke r p) := by
  refine ⟨h.known, h.awaited, h.offline, h.live, h.heartbeats, fun j => ?_⟩
  rcases eq_or_ne j r with rfl | hne
  · rw [revokes_setRevoke]
    exact hp
  · rw [revokes_setRevoke_of_ne hne]
    exact h.revokes j

lemma Inv.remember (h : Inv s) (d : ℕ) : Inv (s.setKnown d true) := by
  have hknown : ∀ e, s.known e = true → (s.setKnown d true).known e = true := by
    intro e he
    rcases eq_or_ne e d with rfl | hne
    · exact known_setKnown
    · rwa [known_setKnown_of_ne hne]
  exact ⟨fun e he => hknown e (h.known e he), fun e he => hknown e (h.awaited e he), h.offline,
    h.live, h.heartbeats, h.revokes⟩

/-- A device that has no key and is not waited for can be forgotten. -/
lemma Inv.forget {d : ℕ} (h : Inv s) (hkey : s.keys d = none) (howed : s.owed d = false) :
    Inv (s.setKnown d false) := by
  have hknown : ∀ e, e ≠ d → s.known e = true → (s.setKnown d false).known e = true :=
    fun e hne he => (known_setKnown_of_ne hne).trans he
  refine ⟨fun e he => hknown e (fun heq => he (heq ▸ hkey)) (h.known e he), fun e he => ?_, h.offline,
    h.live, h.heartbeats, h.revokes⟩
  refine hknown e (fun heq => ?_) (h.awaited e he)
  rw [heq] at he
  cases howed.symm.trans he

lemma Inv.dropKey (h : Inv s) (d : ℕ) : Inv (s.dropKey d) := by
  have hkeys : ∀ e, (s.dropKey d).keys e ≠ none → s.keys e ≠ none := by
    intro e he
    rcases eq_or_ne e d with rfl | hne
    · exact absurd keys_dropKey he
    · rwa [keys_dropKey_of_ne hne] at he
  refine ⟨fun e he => h.known e (hkeys e he), h.awaited, h.offline, fun e he => ?_, fun j => ?_,
    fun r => ?_⟩
  · rcases eq_or_ne e d with rfl | hne
    · cases live_dropKey.symm.trans he
    · rw [keys_dropKey_of_ne hne]
      exact h.live e ((Function.update_of_ne hne ..).symm.trans he)
  · refine (h.heartbeats j).mono (fun _ => id) (fun _ _ => id) fun e => ?_
    rcases eq_or_ne e d with rfl | hne
    · refine .inl ?_
      rw [life_dropKey]
      exact Nat.lt_succ_self _
    · refine .inr ⟨Function.update_of_ne hne .., fun he => ?_⟩
      rwa [keys_dropKey_of_ne hne]
  · refine (h.revokes r).mono (fun _ => id) fun e _ he => ?_
    by_contra hno
    exact hkeys e hno he

lemma Inv.publish (h : Inv s) {userId d : ℕ} {presence : Presence} {ttlSeconds : ℕ}
    (hlive : presence = .offline → s.live d = false) :
    Inv (s.publish userId d presence ttlSeconds) := by
  refine ⟨h.known, h.awaited, fun e he => ?_, h.live, h.heartbeats, h.revokes⟩
  rcases List.mem_cons.mp he with rfl | he
  · exact hlive
  · exact h.offline e he

lemma Inv.lock (h : Inv s) (i d : ℕ) : Inv (s.lock i d) := by
  refine ⟨h.known, h.awaited, h.offline, h.live, fun j => (h.heartbeats j).mono (fun e hj => ?_)
    (fun _ _ => id) fun _ => .inr ⟨rfl, id⟩, h.revokes⟩
  rcases eq_or_ne e d with rfl | hne
  · rw [locks_lock]
    exact List.mem_cons_of_mem i hj
  · rwa [locks_lock_of_ne hne]

lemma Inv.unlock (h : Inv s) (i d : ℕ) : Inv (s.unlock i d) := by
  have hlocks : ∀ j, j ≠ i → ∀ e, j ∈ s.locks e → j ∈ (s.unlock i d).locks e := by
    intro j hne e hj
    rcases eq_or_ne e d with rfl | hd
    · rw [locks_unlock]
      exact (List.mem_erase_of_ne hne).mpr hj
    · rwa [locks_unlock_of_ne hd]
  refine ⟨h.known, h.awaited, h.offline, h.live, fun j => ?_, h.revokes⟩
  rcases eq_or_ne j i with rfl | hne
  · rw [heartbeats_unlock]
    trivial
  · rw [heartbeats_unlock_of_ne hne]
    exact (h.heartbeats j).mono (hlocks j hne) (fun _ _ => id) fun _ => .inr ⟨rfl, id⟩

/-! ### The steps -/

lemma inv_pair {d userId : ℕ} (h : Inv s) (hs : s.pair d userId = some t) : Inv t := by
  unfold pair at hs
  split at hs
  · cases hs
  next hnone =>
  cases hs
  have hother : ∀ e, (∃ device, s.devices e = some device) →
      Function.update s.devices d (some ⟨userId, true⟩) e = s.devices e := by
    rintro e ⟨device, he⟩
    refine Function.update_of_ne (fun heq => ?_) ..
    rw [heq, hnone] at he
    cases he
  refine ⟨h.known, h.awaited, h.offline, h.live, fun j => (h.heartbeats j).mono (fun _ => id) ?_
    fun _ => .inr ⟨rfl, id⟩, fun r => (h.revokes r).mono ?_ fun _ _ => id⟩
  · rintro e - ⟨device, he, hactive⟩
    exact ⟨device, (hother e ⟨device, he⟩).trans he, hactive⟩
  · rintro e ⟨device, he, hno⟩
    exact ⟨device, (hother e ⟨device, he⟩).trans he, hno⟩

lemma inv_expireKey {d : ℕ} (h : Inv s) (hs : s.expireKey d = some t) : Inv t := by
  unfold expireKey at hs
  split at hs
  swap
  · cases hs
  next hkey =>
  cases hs
  have hdrop := h.dropKey d
  refine ⟨hdrop.known, fun e he => ?_, hdrop.offline, hdrop.live, hdrop.heartbeats, hdrop.revokes⟩
  rcases eq_or_ne e d with rfl | hne
  · exact h.known e (Option.isSome_iff_ne_none.mp hkey)
  · exact h.awaited e ((owed_setOwed_of_ne hne).symm.trans he)

lemma inv_heartbeat {i d : ℕ} {presence : Presence} (h : Inv s)
    (hs : s.heartbeat i d presence = some t) : Inv t := by
  unfold heartbeat at hs
  split at hs
  swap
  · cases hs
  next device hidle hd =>
  split at hs
  swap
  · cases hs
  next hdevice =>
  cases hs
  exact (h.lock i d).setHeartbeat ⟨locks_lock ▸ List.mem_cons_self, ⟨device, hd, hdevice.1⟩,
    hdevice.2⟩

/-- A key is stored for an active device, so no revoke is done with it. -/
lemma Inv.store {d : ℕ} (h : Inv s) (hactive : s.IsActive d) (presence : Presence) :
    Inv ((s.setKnown d true).storeKey d presence) := by
  have hkeys : ∀ e, s.keys e ≠ none → ((s.setKnown d true).storeKey d presence).keys e ≠ none := by
    intro e he
    rcases eq_or_ne e d with rfl | hne
    · rw [keys_storeKey]
      exact Option.some_ne_none presence
    · rwa [keys_storeKey_of_ne hne]
  have hknown := h.remember d
  refine ⟨fun e he => ?_, hknown.awaited, h.offline, fun e he => hkeys e (h.live e he),
    fun j => (h.heartbeats j).mono (fun _ => id) (fun _ _ => id) fun e => .inr ⟨rfl, hkeys e⟩,
    fun r => (h.revokes r).mono (fun _ => id) fun e hrevoked he => ?_⟩
  · rcases eq_or_ne e d with rfl | hne
    · exact known_setKnown
    · rw [keys_storeKey_of_ne hne] at he
      exact hknown.known e he
  · have hne : e ≠ d := fun heq => (heq ▸ hrevoked).not_active hactive
    rwa [keys_storeKey_of_ne hne]

lemma Inv.setLive {d : ℕ} {b : Bool} (h : Inv s) (hb : b = true → s.keys d ≠ none) :
    Inv (s.setLive d b) := by
  refine ⟨h.known, h.awaited, h.offline, fun e he => ?_, h.heartbeats, h.revokes⟩
  rcases eq_or_ne e d with rfl | hne
  · exact hb (live_setLive.symm.trans he)
  · exact h.live e ((live_setLive_of_ne hne).symm.trans he)

lemma Inv.settle (h : Inv s) (d : ℕ) : Inv (s.setOwed d false) := by
  refine ⟨h.known, fun e he => ?_, h.offline, h.live, h.heartbeats, h.revokes⟩
  rcases eq_or_ne e d with rfl | hne
  · cases owed_setOwed.symm.trans he
  · exact h.awaited e ((owed_setOwed_of_ne hne).symm.trans he)

lemma inv_heartbeatGoesOn {i : ℕ} (h : Inv s) (hs : s.heartbeatGoesOn i = some t) : Inv t := by
  have hgood := h.heartbeats i
  unfold heartbeatGoesOn at hs
  split at hs
  · cases hs
  · next d userId presence hphase =>
    cases hs
    rw [hphase] at hgood
    obtain ⟨hlock, hactive, hpresence⟩ := hgood
    refine (h.store hactive presence).setHeartbeat ⟨hlock, hactive, hpresence, Nat.le_refl _,
      fun _ => ?_⟩
    rw [keys_storeKey]
    exact Option.some_ne_none presence
  · next d userId presence life hphase =>
    cases hs
    rw [hphase] at hgood
    obtain ⟨-, -, hpresence, -, hkey⟩ := hgood
    refine ((h.publish fun hoff => absurd hoff hpresence).setLive fun hlive => ?_).unlock i d
    rcases (Bool.or_eq_true _ _).mp hlive with hlive | hlife
    · exact h.live d hlive
    · exact hkey (of_decide_eq_true hlife)

lemma inv_heartbeatFails {i : ℕ} (h : Inv s) (hs : s.heartbeatFails i = some t) : Inv t := by
  unfold heartbeatFails at hs
  split at hs
  · cases hs
  all_goals
    cases hs
    exact h.unlock i _

/-- A truthful state has forgotten no device with a key and none that is waited for. -/
lemma Truthful.forgotten {d : ℕ} (h : s.Truthful) (hd : s.known d = false) :
    s.keys d = none ∧ s.owed d = false := by
  constructor
  · by_contra hkey
    cases hd.symm.trans (h.known d hkey)
  · by_contra howed
    cases hd.symm.trans (h.awaited d (eq_true_of_ne_false howed))

/-- Exactly a steady step of a pass leaves presence true. -/
lemma passGoesOn_iff {m : ℕ} (h : Inv s) (hs : s.passGoesOn m = some t) :
    (s.Steady (.passGoesOn m) → Inv t) ∧ (t.Truthful → s.Steady (.passGoesOn m)) := by
  unfold passGoesOn at hs
  unfold Steady
  split at hs
  · cases hs
  · next d rest hphase =>
    cases hs
    simp only [hphase]
    exact ⟨fun _ => h.setMonitor m _, fun _ => trivial⟩
  · next d rest hphase =>
    cases hs
    simp only [hphase]
    exact ⟨fun _ => (h.remember d).setMonitor m _, fun _ => trivial⟩
  · next d rest hphase =>
    cases hs
    simp only [hphase]
    exact ⟨fun _ => h.setMonitor m _, fun _ => trivial⟩
  · next d rest hphase =>
    cases hs
    simp only [hphase]
    refine ⟨fun ⟨hkey, howed⟩ => (h.forget hkey (howed trivial)).setMonitor m _, fun ht => ?_⟩
    obtain ⟨hkey, howed⟩ := ht.forgotten known_setKnown
    exact ⟨hkey, fun _ => howed⟩
  · next d userId rest hphase =>
    cases hs
    simp only [hphase]
    constructor
    · rintro ⟨hkey, -⟩
      have hlive : s.live d = false := by
        by_contra hlive
        exact h.live d (eq_true_of_ne_false hlive) hkey
      exact (((h.publish fun _ => hlive).settle d).forget hkey owed_setOwed).setMonitor m _
    · intro ht
      exact ⟨(ht.forgotten known_setKnown).1, nofun⟩

/-- A revoke needs the lock of no heartbeat. -/
lemma inv_revoke {r d : ℕ} (h : Inv s) (hs : s.revoke r d = some t) : Inv t := by
  unfold revoke at hs
  split at hs
  swap
  · cases hs
  next device hidle hd =>
  split at hs
  swap
  · next hno =>
    cases hs
    exact h.setRevoke ⟨device, hd, eq_false_of_ne_true hno⟩
  split at hs
  swap
  · cases hs
  next hfree =>
  cases hs
  have hrevoked : Inv { s with
      devices := Function.update s.devices d (some { device with active := false }) } := by
    refine ⟨h.known, h.awaited, h.offline, h.live, fun j => (h.heartbeats j).mono (fun _ => id)
      (fun e hj => ?_) fun _ => .inr ⟨rfl, id⟩, fun j => (h.revokes j).mono (fun e he => ?_)
        fun _ _ => id⟩
    · have hne : e ≠ d := fun heq => by
        rw [heq, hfree] at hj
        cases hj
      rintro ⟨device', hd', hactive⟩
      exact ⟨device', (Function.update_of_ne hne ..).trans hd', hactive⟩
    · rcases eq_or_ne e d with rfl | hne
      · exact ⟨_, Function.update_self .., rfl⟩
      · obtain ⟨device', hd', hno⟩ := he
        exact ⟨device', (Function.update_of_ne hne ..).trans hd', hno⟩
  exact hrevoked.setRevoke ⟨_, Function.update_self .., rfl⟩

lemma revokeGoesOn_iff {r : ℕ} (h : Inv s) (hs : s.revokeGoesOn r = some t) :
    (s.Steady (.revokeGoesOn r) → Inv t) ∧ (t.Truthful → s.Steady (.revokeGoesOn r)) := by
  have hgood := h.revokes r
  unfold revokeGoesOn at hs
  unfold Steady
  split at hs
  · next d hphase =>
    cases hs
    rw [hphase] at hgood
    simp only [hphase]
    refine ⟨fun _ => ?_, fun _ => trivial⟩
    split
    · exact (h.dropKey d).setRevoke ⟨hgood, keys_dropKey⟩
    · next hnone => exact h.setRevoke ⟨hgood, Option.not_isSome_iff_eq_none.mp hnone⟩
  · next d hphase =>
    cases hs
    rw [hphase] at hgood
    simp only [hphase]
    exact ⟨fun howed => (h.forget hgood.2 howed).setRevoke hgood, fun ht =>
      (ht.forgotten known_setKnown).2⟩
  · cases hs
  · cases hs

lemma revokeFails_iff {r : ℕ} (h : Inv s) (hs : s.revokeFails r = some t) :
    (s.Steady (.revokeFails r) → Inv t) ∧ (t.Truthful → s.Steady (.revokeFails r)) := by
  have hgood := h.revokes r
  unfold revokeFails at hs
  unfold Steady
  split at hs
  · next d hphase =>
    cases hs
    rw [hphase] at hgood
    simp only [hphase]
    exact ⟨fun hkey => h.setRevoke ⟨hgood, hkey⟩, fun ht => ht.revoked r d revokes_setRevoke⟩
  · next d hphase =>
    cases hs
    rw [hphase] at hgood
    simp only [hphase]
    exact ⟨fun _ => h.setRevoke hgood, fun _ => trivial⟩
  · cases hs
  · cases hs

/-- **One step**: the steady ones keep the invariant, the others end the truth. -/
lemma inv_step {e : PresenceEvent} (h : Inv s) (hs : s.step e = some t) :
    (s.Steady e → Inv t) ∧ (t.Truthful → s.Steady e) := by
  cases e with
  | pair d userId => exact ⟨fun _ => inv_pair h hs, fun _ => trivial⟩
  | expireKey d => exact ⟨fun _ => inv_expireKey h hs, fun _ => trivial⟩
  | heartbeat i d presence => exact ⟨fun _ => inv_heartbeat h hs, fun _ => trivial⟩
  | heartbeatGoesOn i => exact ⟨fun _ => inv_heartbeatGoesOn h hs, fun _ => trivial⟩
  | heartbeatFails i => exact ⟨fun _ => inv_heartbeatFails h hs, fun _ => trivial⟩
  | pass m due =>
    refine ⟨fun _ => ?_, fun _ => trivial⟩
    simp only [step, pass] at hs
    split at hs
    · split at hs
      · cases hs
        exact h.setMonitor m _
      · cases hs
    · cases hs
  | passGoesOn m => exact passGoesOn_iff h hs
  | passFails m =>
    refine ⟨fun _ => ?_, fun _ => trivial⟩
    simp only [step, passFails] at hs
    split at hs
    · cases hs
    · cases hs
      exact h.setMonitor m _
  | revoke r d => exact ⟨fun _ => inv_revoke h hs, fun _ => trivial⟩
  | revokeGoesOn r => exact revokeGoesOn_iff h hs
  | revokeFails r => exact revokeFails_iff h hs

/-- A device is announced, and its key expires. -/
def gone : List PresenceEvent :=
  [.pair 1 7, .heartbeat 0 1 .onlineIdle, .heartbeatGoesOn 0, .heartbeatGoesOn 0, .expireKey 1]

/-- A monitor tells so, the device comes back and is revoked. -/
def goneAndBack : List PresenceEvent :=
  gone ++ [.pass 0 [1], .passGoesOn 0, .passGoesOn 0, .passGoesOn 0, .heartbeat 1 1 .onlineIdle,
    .heartbeatGoesOn 1, .heartbeatGoesOn 1, .revoke 0 1, .revokeGoesOn 0, .revokeGoesOn 0]

/-- The device comes back after the monitor has looked for its key. -/
def backTooEarly : List PresenceEvent :=
  gone ++ [.pass 0 [1], .passGoesOn 0, .heartbeat 1 1 .onlineIdle, .heartbeatGoesOn 1,
    .heartbeatGoesOn 1, .passGoesOn 0, .passGoesOn 0]

end PresenceState

end MouseKeeper.Server
