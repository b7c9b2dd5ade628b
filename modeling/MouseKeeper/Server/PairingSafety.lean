import Mathlib.Data.List.Nodup
import MouseKeeper.Server.Pairing

/-!
Pairing is safe.

The user's advisory lock is held from before the active devices are looked at until the new one is
visible, and the lock of the session row from before it is found unclaimed until it is claimed.
-/

namespace MouseKeeper.Server.Pairing

open MouseKeeper.ReadCommitted

variable {H A : Type} [DecidableEq H] (hashCode : PairingCode → H) (hashtext : Advisory → A)

/-! ### What holds of the tables -/

/-- The device is what the session has become. -/
structure Became (p : PairingSession H) (x : Device) : Prop where
  claimedAt : p.claimedAt ≠ none
  user : p.claimedByUserId = some x.userId
  device : p.claimedDeviceId = some x.id
  platform : x.platform = p.platform
  deviceName : x.deviceName = p.deviceName
  publicKey : x.publicKey = p.publicKey

structure Unclaimed (p : PairingSession H) : Prop where
  claimedAt : p.claimedAt = none
  user : p.claimedByUserId = none
  device : p.claimedDeviceId = none

structure Paired (d : Db H) : Prop where
  sessionIds : (d.sessions.map (·.id)).Nodup
  hashed : ∀ p ∈ d.sessions, p.pairingCodeHash = hashCode p.code
  deviceIds : (d.devices.map (·.id)).Nodup
  oneActive : ∀ x ∈ d.devices, ∀ y ∈ d.devices, x.active = true → y.active = true →
    x.userId = y.userId → x = y
  claims : ∀ p ∈ d.sessions, Unclaimed p ∨ ∃ x ∈ d.devices, Became p x
  sources : ∀ x ∈ d.devices, ∃ p ∈ d.sessions, p.claimedDeviceId = some x.id
  once : ∀ p ∈ d.sessions, ∀ p' ∈ d.sessions, ∀ i, p.claimedDeviceId = some i →
    p'.claimedDeviceId = some i → p = p'

variable {hashCode hashtext} {d : Db H} {held held' : List (Lock H A)}

omit [DecidableEq H] in
lemma Paired.empty : Paired hashCode (.empty : Db H) :=
  ⟨.nil, nofun, .nil, nofun, nofun, nofun, nofun⟩

/-! ### What a call knows -/

variable (hashCode) in
/-- The claim has found the session and locked it. -/
structure Found (d : Db H) (held : List (Lock H A)) (q : Claim) (p : PairingSession H) : Prop where
  mem : p ∈ d.sessions
  hash : p.pairingCodeHash = hashCode q.code
  unclaimed : p.claimedAt = none
  expiresAt : q.now < p.expiresAt
  locked : .session p.id ∈ held

variable (hashtext) in
/-- No active device of the user is visible, nor will one be. -/
structure NoActive (d : Db H) (held : List (Lock H A)) (userId : ℕ) : Prop where
  locked : .advisory (hashtext (.user userId)) ∈ held
  none : ∀ x ∈ d.devices, x.userId = userId → x.active = false

/-- The identifier of the new device is free. -/
structure Free (d : Db H) (held : List (Lock H A)) (id : ℕ) : Prop where
  locked : .device id ∈ held
  none : ∀ x ∈ d.devices, x.id ≠ id

/-- The session that a token is handed out for. -/
def Polled (d : Db H) (q : Status) (deviceId : ℕ) : Prop :=
  ∃ p ∈ d.sessions, p.id = q.sessionId ∧ p.desktopNonce = q.desktopNonce ∧ q.now < p.expiresAt ∧
    p.claimedAt ≠ none ∧ p.claimedDeviceId = some deviceId

variable (hashCode hashtext) in
/-- Where a call stands: what it has changed, what is left of it, and what it knows. -/
inductive Place (d : Db H) (held : List (Lock H A)) :
    Request → (Db H → Db H) → Program H A → Prop
  | create (q : Create) : Place d held (.create q) id (create hashCode q)
  | created (q : Create) (hf : d.hasSession (q.session hashCode) = false)
    (hl : Lock.session q.newId ∈ held ∧ .nonce q.desktopNonce ∈ held ∧
      .codeHash (hashCode q.code) ∈ held) :
    Place d held (.create q) (Db.addSession (q.session hashCode))
      (.answer (.ok (.created q.newId q.desktopNonce q.code (q.now + lifetime))))
  | claim (q : Claim) : Place d held (.claim q) id (claim hashCode hashtext q)
  | lockUser (q : Claim) (p : PairingSession H) (h : Found hashCode d held q p) :
    Place d held (.claim q) id (lockUser hashtext q p)
  | requireNoDevice (q : Claim) (p : PairingSession H)
    (h : Found hashCode d held q p)
    (hl : .advisory (hashtext (.user q.userId)) ∈ held) :
    Place d held (.claim q) id (requireNoDevice q p)
  | insertDevice (q : Claim) (p : PairingSession H) (h : Found hashCode d held q p)
    (hn : NoActive hashtext d held q.userId) :
    Place d held (.claim q) id (insertDevice q p)
  | updateSession (q : Claim) (p : PairingSession H) (h : Found hashCode d held q p)
    (hn : NoActive hashtext d held q.userId) (hf : Free d held q.newId) :
    Place d held (.claim q) (Db.addDevice (q.device p)) (updateSession q p)
  | claimed (q : Claim) (p : PairingSession H) (h : Found hashCode d held q p)
    (hn : NoActive hashtext d held q.userId) (hf : Free d held q.newId) :
    Place d held (.claim q) (fun d => (d.addDevice (q.device p)).claimSession q p.id)
      (.answer (.ok (.device (q.device p))))
  | status (q : Status) : Place d held (.status q) id (status q)
  | pending (q : Status) (expiresAt : ℕ) :
    Place d held (.status q) id (.answer (.ok (.pending expiresAt)))
  | token (q : Status) (deviceId : ℕ) (h : Polled d q deviceId) :
    Place d held (.status q) id (.answer (.ok (.claimed deviceId)))
  | revokeDevice (q : Revoke) : Place d held (.revokeDevice q) id (revokeDevice hashtext q)
  | findReceipt (q : Revoke) : Place d held (.revokeDevice q) id (findReceipt q)
  | replayed (q : Revoke) : Place d held (.revokeDevice q) id (.answer (.ok .revoked))
  | lockDevice (q : Revoke) : Place d held (.revokeDevice q) id (lockDevice q)
  | updateDevice (q : Revoke) : Place d held (.revokeDevice q) id (updateDevice q)
  | insertReceipt (q : Revoke) :
    Place d held (.revokeDevice q) (Db.revoke q.deviceId) (insertReceipt q)
  | revoked (q : Revoke) :
    Place d held (.revokeDevice q) (fun d => (d.revoke q.deviceId).addReceipt q.receipt)
      (.answer (.ok .revoked))
  | refused (q : Request) (f : Db H → Db H) (code : Code) : Place d held q f (refuse code)

/-! ### What the others do -/

variable (hashtext) in
/-- What commits with the locks do: sessions stay as they are unless they are unclaimed and
locked, devices stay, apart from being revoked, and what is new is locked. -/
structure Follows (held : List (Lock H A)) (d d' : Db H) : Prop where
  sessions : ∀ p ∈ d.sessions, p.claimedAt ≠ none ∨ .session p.id ∉ held → p ∈ d'.sessions
  newSessions : ∀ p ∈ d'.sessions,
    (∃ y ∈ d.sessions, y.id = p.id ∧ y.desktopNonce = p.desktopNonce ∧
      y.pairingCodeHash = p.pairingCodeHash) ∨
    .session p.id ∈ held ∧ .nonce p.desktopNonce ∈ held ∧ .codeHash p.pairingCodeHash ∈ held
  devices : ∀ x ∈ d'.devices,
    (∃ y ∈ d.devices, y.id = x.id ∧ y.userId = x.userId ∧ (x.active = true → y.active = true)) ∨
    .device x.id ∈ held ∧ .advisory (hashtext (.user x.userId)) ∈ held

variable {d' : Db H} {q : Request} {f : Db H → Db H} {t : Program H A}

omit [DecidableEq H] in
lemma Follows.refl (held : List (Lock H A)) (d : Db H) : Follows hashtext held d d where
  sessions := fun _ hp _ => hp
  newSessions := fun p hp => .inl ⟨p, hp, rfl, rfl, rfl⟩
  devices := fun x hx => .inl ⟨x, hx, rfl, rfl, fun h => h⟩

lemma hasSession_eq_false {p : PairingSession H} : d.hasSession p = false ↔
    ∀ x ∈ d.sessions, x.id ≠ p.id ∧ x.desktopNonce ≠ p.desktopNonce ∧
      x.pairingCodeHash ≠ p.pairingCodeHash := by
  simp [Db.hasSession]

lemma Place.stable (h : Place hashCode hashtext d held' q f t) (hd : Follows hashtext held d d')
    (hdis : List.Disjoint held held') : Place hashCode hashtext d' held' q f t := by
  have hfound : ∀ {q p}, Found hashCode d held' q p → Found hashCode d' held' q p :=
    fun {q p} h => ⟨hd.sessions p h.mem (.inr fun hl => hdis hl h.locked), h.hash, h.unclaimed,
      h.expiresAt, h.locked⟩
  have hnone : ∀ {userId}, NoActive hashtext d held' userId → NoActive hashtext d' held' userId := by
    refine fun {userId} h => ⟨h.locked, fun x hx hu => ?_⟩
    rcases hd.devices x hx with ⟨y, hy, -, hyu, ha⟩ | ⟨-, hl⟩
    · rw [Bool.eq_false_iff]
      exact fun hx => by simp [h.none y hy (hyu.trans hu)] at ha; simp [ha] at hx
    · exact absurd h.locked fun h => hdis (hu ▸ hl) h
  have hfree : ∀ {id}, Free d held' id → Free d' held' id := by
    refine fun {id} h => ⟨h.locked, fun x hx hid => ?_⟩
    rcases hd.devices x hx with ⟨y, hy, hyid, -⟩ | ⟨hl, -⟩
    · exact h.none y hy (hyid.trans hid)
    · exact hdis (hid ▸ hl) h.locked
  cases h with
  | create q => exact .create q
  | created q hf hl =>
    refine .created q (hasSession_eq_false.mpr fun x hx => ?_) hl
    rcases hd.newSessions x hx with ⟨y, hy, hyid, hyn, hyh⟩ | ⟨hid, hn, hh⟩
    · rw [← hyid, ← hyn, ← hyh]
      exact hasSession_eq_false.mp hf y hy
    · exact ⟨fun he => hdis hid (he ▸ hl.1), fun he => hdis hn (he ▸ hl.2.1),
        fun he => hdis hh (he ▸ hl.2.2)⟩
  | claim q => exact .claim q
  | lockUser q p h => exact .lockUser q p (hfound h)
  | requireNoDevice q p h hl => exact .requireNoDevice q p (hfound h) hl
  | insertDevice q p h hn => exact .insertDevice q p (hfound h) (hnone hn)
  | updateSession q p h hn hf => exact .updateSession q p (hfound h) (hnone hn) (hfree hf)
  | claimed q p h hn hf => exact .claimed q p (hfound h) (hnone hn) (hfree hf)
  | status q => exact .status q
  | pending q expiresAt => exact .pending q expiresAt
  | token q deviceId h =>
    obtain ⟨p, hp, hid, hnonce, hexp, hc, hdev⟩ := h
    exact .token q deviceId ⟨p, hd.sessions p hp (.inl hc), hid, hnonce, hexp, hc, hdev⟩
  | revokeDevice q => exact .revokeDevice q
  | findReceipt q => exact .findReceipt q
  | replayed q => exact .replayed q
  | lockDevice q => exact .lockDevice q
  | updateDevice q => exact .updateDevice q
  | insertReceipt q => exact .insertReceipt q
  | revoked q => exact .revoked q
  | refused q f code => exact .refused q f code

/-! ### Statements -/

lemma place_start (q : Request) : Place hashCode hashtext d held q id (body hashCode hashtext q) := by
  cases q with
  | create q => exact .create q
  | claim q => exact .claim q
  | status q => exact .status q
  | revokeDevice q => exact .revokeDevice q

lemma find_mem {α : Type} {p : α → Bool} {l : List α} {x : α} (h : l.find? p = some x) :
    x ∈ l ∧ p x = true :=
  ⟨List.mem_of_find?_eq_some h, List.find?_some h⟩

/-- Either way of a statement that looks before it writes. -/
lemma place_ite {b : Bool} {g g' : Db H → Db H} {u u' : Program H A}
    (h : b = true → Place hashCode hashtext d held q g u)
    (h' : b = false → Place hashCode hashtext d held q g' u') :
    Place hashCode hashtext d held q (fun d => if b then g d else g' d) (if b then u else u') := by
  cases b with
  | true => exact h rfl
  | false => exact h' rfl

lemma place_if {b : Bool} {u u' : Program H A}
    (h : b = true → Place hashCode hashtext d held q f u)
    (h' : b = false → Place hashCode hashtext d held q f u') :
    Place hashCode hashtext d held q f (if b then u else u') := by
  cases b with
  | true => exact h rfl
  | false => exact h' rfl

lemma place_found (q : Claim) (held : List (Lock H A)) :
    Place hashCode hashtext d
      (((d.claimable hashCode q).map fun p => Lock.session p.id).toList ++ held) (.claim q) id
      (match d.claimable hashCode q with
        | none => refuse .notFound
        | some p => lockUser hashtext q p) := by
  cases h : d.claimable hashCode q with
  | none => exact .refused ..
  | some p =>
    obtain ⟨hp, hc⟩ := find_mem h
    obtain ⟨hhash, hun, hexp⟩ := of_decide_eq_true hc
    exact .lockUser q p ⟨hp, hhash, hun, hexp, List.mem_cons_self⟩

lemma place_polled (hi : Paired hashCode d) (q : Status) :
    Place hashCode hashtext d held (.status q) id
      (match d.polled q with
        | none => refuse .notFound
        | some p =>
          match p.claimedDeviceId, p.claimedByUserId with
          | some deviceId, some _ => .answer (.ok (.claimed deviceId))
          | _, _ => .answer (.ok (.pending p.expiresAt))) := by
  cases h : d.polled q with
  | none => exact .refused ..
  | some p =>
    obtain ⟨hp, hc⟩ := find_mem h
    obtain ⟨hid, hnonce, hexp⟩ := of_decide_eq_true hc
    rcases hi.claims p hp with hun | ⟨x, -, hx⟩
    · simp only [hun.device]
      exact .pending q _
    · simp only [hx.device, hx.user]
      exact .token q _ ⟨p, hp, hid, hnonce, hexp, hx.claimedAt, hx.device⟩

lemma place_receipt (q : Revoke) (r : Option Receipt) :
    Place hashCode hashtext d held (.revokeDevice q) id
      (match r with
        | some r => if r.deviceId = q.deviceId then .answer (.ok .revoked)
          else refuse .idempotencyConflict
        | none => lockDevice q) := by
  cases r with
  | none => exact .lockDevice q
  | some r =>
    dsimp only
    split_ifs
    · exact .replayed q
    · exact .refused ..

omit [DecidableEq H] in
lemma Found.mono {q : Claim} {p : PairingSession H} (h : Found hashCode d held q p)
    (hs : held ⊆ held') : Found hashCode d held' q p :=
  ⟨h.mem, h.hash, h.unclaimed, h.expiresAt, hs h.locked⟩

omit [DecidableEq H] in
lemma NoActive.mono {userId : ℕ} (h : NoActive hashtext d held userId) (hs : held ⊆ held') :
    NoActive hashtext d held' userId :=
  ⟨hs h.locked, h.none⟩

omit [DecidableEq H] in
lemma Free.mono {id : ℕ} (h : Free d held id) (hs : held ⊆ held') : Free d held' id :=
  ⟨hs h.locked, h.none⟩

omit [DecidableEq H] in
lemma noActive_of_none {userId : ℕ} (hl : .advisory (hashtext (.user userId)) ∈ held)
    (h : (d.activeDevice userId).isSome = false) : NoActive hashtext d held userId := by
  refine ⟨hl, fun x hx hu => ?_⟩
  have hfind : d.activeDevice userId = none := by simpa using h
  have hnot := List.find?_eq_none.mp hfind x hx
  simpa [hu] using hnot

lemma Place.advance {c : OpenCall H A} {locks change next}
    (hi : Paired hashCode d)
    (h : Place hashCode hashtext d c.held c.request c.change c.rest)
    (hr : c.rest = .stmt locks change next) :
    Place hashCode hashtext d (c.advance d locks change next).held c.request
      (c.advance d locks change next).change (c.advance d locks change next).rest := by
  obtain ⟨q, held, f, t⟩ := c
  dsimp only at h hr
  subst hr
  generalize ht : Txn.stmt locks change next = t at h
  cases h with
  | create q =>
    cases ht
    refine place_ite (fun _ => .refused ..) fun hf => .created q hf ⟨?_, ?_, ?_⟩
    · exact List.mem_cons_self
    · exact List.mem_cons_of_mem _ List.mem_cons_self
    · exact List.mem_cons_of_mem _ (List.mem_cons_of_mem _ List.mem_cons_self)
  | claim q =>
    cases ht
    exact place_found q held
  | lockUser q p h =>
    cases ht
    exact .requireNoDevice q p (h.mono (List.subset_cons_self ..)) List.mem_cons_self
  | requireNoDevice q p h hl =>
    cases ht
    exact place_if (fun _ => .refused ..) fun hn =>
      .insertDevice q p h (noActive_of_none hl hn)
  | insertDevice q p h hn =>
    cases ht
    refine place_ite (fun _ => .refused ..) fun hf =>
      .updateSession q p (h.mono (List.subset_cons_self ..)) (hn.mono (List.subset_cons_self ..))
        ⟨List.mem_cons_self, fun x hx hid => ?_⟩
    exact List.any_eq_false.mp hf x hx (decide_eq_true hid)
  | updateSession q p h hn hf =>
    cases ht
    exact .claimed q p (h.mono (List.subset_cons_self ..)) (hn.mono (List.subset_cons_self ..))
      (hf.mono (List.subset_cons_self ..))
  | status q =>
    cases ht
    exact place_polled hi q
  | revokeDevice q =>
    cases ht
    exact .findReceipt q
  | findReceipt q =>
    cases ht
    exact place_receipt q _
  | lockDevice q =>
    cases ht
    exact place_if (fun _ => .updateDevice q) fun _ => .refused ..
  | updateDevice q =>
    cases ht
    exact place_ite (fun _ => .insertReceipt q) fun _ => .refused ..
  | insertReceipt q =>
    cases ht
    exact .revoked q
  | _ => cases ht

/-! ### Commits -/

lemma paired_addSession (h : Paired hashCode d) {q : Create}
    (hf : d.hasSession (q.session hashCode) = false) :
    Paired hashCode (d.addSession (q.session hashCode)) := by
  have hnew := hasSession_eq_false.mp hf
  obtain ⟨hids, hhash, hdev, hone, hcl, hsrc, honce⟩ := h
  refine ⟨?_, fun p hp => ?_, hdev, hone, fun p hp => ?_, fun x hx => ?_, fun p hp p' hp' i hi hi' => ?_⟩
  · rw [Db.addSession, List.map_append]
    refine hids.append (List.nodup_singleton _) fun i hi hi' => ?_
    obtain ⟨x, hx, rfl⟩ := List.mem_map.mp hi
    exact (hnew x hx).1 (List.mem_singleton.mp hi')
  · rcases List.mem_append.mp hp with hp | hp
    · exact hhash p hp
    · rw [List.mem_singleton.mp hp]
      rfl
  · rcases List.mem_append.mp hp with hp | hp
    · exact hcl p hp
    · rw [List.mem_singleton.mp hp]
      exact .inl ⟨rfl, rfl, rfl⟩
  · obtain ⟨p, hp, hpx⟩ := hsrc x hx
    exact ⟨p, List.mem_append_left _ hp, hpx⟩
  · -- The new session has no device.
    have hold : ∀ p ∈ (d.addSession (q.session hashCode)).sessions,
        p.claimedDeviceId = some i → p ∈ d.sessions := by
      intro p hp hi
      rcases List.mem_append.mp hp with hp | hp
      · exact hp
      · rw [List.mem_singleton.mp hp] at hi
        cases hi
    exact honce p (hold p hp hi) p' (hold p' hp' hi') i hi hi'

omit [DecidableEq H] in
lemma mem_claimed {q : Claim} {p p' : PairingSession H} (h : Paired hashCode d)
    (hp : p ∈ d.sessions) :
    p' ∈ ((d.addDevice (q.device p)).claimSession q p.id).sessions ↔
      p' = q.claimed p ∨ p' ∈ d.sessions ∧ p' ≠ p := by
  have heq : ∀ x ∈ d.sessions, x.id = p.id → x = p := fun x hx =>
    List.inj_on_of_nodup_map h.sessionIds hx hp
  constructor
  · intro hp'
    obtain ⟨x, hx, rfl⟩ := List.mem_map.mp hp'
    split_ifs with hid
    · exact .inl (by rw [heq x hx hid])
    · exact .inr ⟨hx, fun hxp => hid (congrArg _ hxp)⟩
  · rintro (rfl | ⟨hp', hne⟩)
    · exact List.mem_map.mpr ⟨p, hp, if_pos rfl⟩
    · exact List.mem_map.mpr ⟨p', hp', if_neg fun hid => hne (heq p' hp' hid)⟩

omit [DecidableEq H] in
lemma unclaimed_of (h : Paired hashCode d) {p : PairingSession H} (hp : p ∈ d.sessions)
    (hc : p.claimedAt = none) : Unclaimed p := by
  rcases h.claims p hp with hun | ⟨x, -, hx⟩
  · exact hun
  · exact absurd hc hx.claimedAt

omit [DecidableEq H] in
lemma paired_claim (h : Paired hashCode d) {q : Claim} {p : PairingSession H}
    (hp : Found hashCode d held q p) (hn : NoActive hashtext d held q.userId)
    (hf : Free d held q.newId) :
    Paired hashCode ((d.addDevice (q.device p)).claimSession q p.id) := by
  have hmem : ∀ {p'}, p' ∈ ((d.addDevice (q.device p)).claimSession q p.id).sessions ↔
      p' = q.claimed p ∨ p' ∈ d.sessions ∧ p' ≠ p := fun {p'} => mem_claimed h hp.mem
  have hun := unclaimed_of h hp.mem hp.unclaimed
  refine ⟨?_, fun p' hp' => ?_, ?_, fun x hx y hy hxa hya hu => ?_, fun p' hp' => ?_,
    fun x hx => ?_, fun p' hp' p'' hp'' i hi hi' => ?_⟩
  · have hids : ((d.addDevice (q.device p)).claimSession q p.id).sessions.map (·.id) =
        d.sessions.map (·.id) := by
      refine (List.map_map ..).trans (List.map_congr_left fun x _ => ?_)
      rw [Function.comp_apply]
      split_ifs <;> rfl
    rw [hids]
    exact h.sessionIds
  · rcases hmem.mp hp' with rfl | ⟨hp', -⟩
    · exact h.hashed p hp.mem
    · exact h.hashed p' hp'
  · refine (List.map_append ..).symm ▸ h.deviceIds.append (List.nodup_singleton _) fun i hi hi' => ?_
    obtain ⟨x, hx, rfl⟩ := List.mem_map.mp hi
    exact hf.none x hx (List.mem_singleton.mp hi')
  · rcases List.mem_append.mp hx with hx | hx <;> rcases List.mem_append.mp hy with hy | hy
    · exact h.oneActive x hx y hy hxa hya hu
    · rw [List.mem_singleton.mp hy] at hu
      rw [hn.none x hx hu] at hxa
      cases hxa
    · rw [List.mem_singleton.mp hx] at hu
      rw [hn.none y hy hu.symm] at hya
      cases hya
    · rw [List.mem_singleton.mp hx, List.mem_singleton.mp hy]
  · rcases hmem.mp hp' with rfl | ⟨hp', -⟩
    · exact .inr ⟨q.device p, List.mem_append_right _ (List.mem_singleton_self _),
        nofun, rfl, rfl, rfl, rfl, rfl⟩
    · exact (h.claims p' hp').imp_right fun ⟨x, hx, hb⟩ => ⟨x, List.mem_append_left _ hx, hb⟩
  · rcases List.mem_append.mp hx with hx | hx
    · obtain ⟨p', hp', hd⟩ := h.sources x hx
      refine ⟨p', hmem.mpr (.inr ⟨hp', fun heq => ?_⟩), hd⟩
      rw [heq, hun.device] at hd
      cases hd
    · rw [List.mem_singleton.mp hx]
      exact ⟨q.claimed p, hmem.mpr (.inl rfl), rfl⟩
  · -- The new device is that of no other session.
    have hother : ∀ p' ∈ d.sessions, p'.claimedDeviceId = some i → i ≠ q.newId := by
      rintro p' hp' hi rfl
      rcases h.claims p' hp' with hun' | ⟨x, hx, hb⟩
      · rw [hun'.device] at hi
        cases hi
      · rw [hb.device] at hi
        exact hf.none x hx (Option.some.inj hi)
    rcases hmem.mp hp' with rfl | ⟨hp', -⟩ <;> rcases hmem.mp hp'' with rfl | ⟨hp'', -⟩
    · rfl
    · exact absurd (Option.some.inj hi).symm (hother p'' hp'' hi')
    · exact absurd (Option.some.inj hi').symm (hother p' hp' hi)
    · exact h.once p' hp' p'' hp'' i hi hi'

omit [DecidableEq H] in
/-- A revoked device is the device that it was, no longer active. -/
lemma mem_revoke {id : ℕ} {x : Device} {d : Db H} (hx : x ∈ (d.revoke id).devices) :
    ∃ y ∈ d.devices, y.id = x.id ∧ y.userId = x.userId ∧ y.platform = x.platform ∧
      y.deviceName = x.deviceName ∧ y.publicKey = x.publicKey ∧
      (x.active = true → x = y) := by
  obtain ⟨y, hy, rfl⟩ := List.mem_map.mp hx
  refine ⟨y, hy, ?_⟩
  split_ifs
  · exact ⟨rfl, rfl, rfl, rfl, rfl, nofun⟩
  · exact ⟨rfl, rfl, rfl, rfl, rfl, fun _ => rfl⟩

omit [DecidableEq H] in
lemma paired_revoke (h : Paired hashCode d) (id : ℕ) (r : Receipt) :
    Paired hashCode ((d.revoke id).addReceipt r) := by
  have hids : (d.revoke id).devices.map (·.id) = d.devices.map (·.id) := by
    refine (List.map_map ..).trans (List.map_congr_left fun x _ => ?_)
    rw [Function.comp_apply]
    split_ifs <;> rfl
  refine ⟨h.sessionIds, h.hashed, ?_, fun x hx y hy hxa hya hu => ?_, fun p hp => ?_,
    fun x hx => ?_, h.once⟩
  · exact hids ▸ h.deviceIds
  · obtain ⟨x', hx', -, -, -, -, -, hxe⟩ := mem_revoke hx
    obtain ⟨y', hy', -, -, -, -, -, hye⟩ := mem_revoke hy
    obtain rfl := hxe hxa
    obtain rfl := hye hya
    exact h.oneActive x hx' y hy' hxa hya hu
  · refine (h.claims p hp).imp_right fun ⟨x, hx, hb⟩ =>
      ⟨_, List.mem_map_of_mem hx, ?_⟩
    split_ifs
    · exact ⟨hb.claimedAt, hb.user, hb.device, hb.platform, hb.deviceName, hb.publicKey⟩
    · exact hb
  · obtain ⟨y, hy, hid, -⟩ := mem_revoke hx
    rw [← hid]
    exact h.sources y hy

/-- **What a commit does** keeps the tables paired, and the others can rely on it. -/
theorem Place.commit {r : Answer} (hi : Paired hashCode d)
    (h : Place hashCode hashtext d held q f (.answer (.ok r))) :
    Paired hashCode (f d) ∧ Follows hashtext held d (f d) := by
  generalize ht : Txn.answer (.ok r) = t at h
  cases h with
  | created q hf hl =>
    refine ⟨paired_addSession hi hf, fun p hp _ => List.mem_append_left _ hp, fun p hp => ?_,
      fun x hx => .inl ⟨x, hx, rfl, rfl, fun h => h⟩⟩
    rcases List.mem_append.mp hp with hp | hp
    · exact .inl ⟨p, hp, rfl, rfl, rfl⟩
    · rw [List.mem_singleton.mp hp]
      exact .inr hl
  | claimed q p hp hn hf =>
    refine ⟨paired_claim hi hp hn hf, fun p' hp' hc => ?_, fun p' hp' => ?_, fun x hx => ?_⟩
    · refine (mem_claimed hi hp.mem).mpr (.inr ⟨hp', ?_⟩)
      rintro rfl
      exact hc.elim (fun h => h hp.unclaimed) fun h => h hp.locked
    · rcases (mem_claimed hi hp.mem).mp hp' with rfl | ⟨hp', -⟩
      · exact .inl ⟨p, hp.mem, rfl, rfl, rfl⟩
      · exact .inl ⟨p', hp', rfl, rfl, rfl⟩
    · rcases List.mem_append.mp hx with hx | hx
      · exact .inl ⟨x, hx, rfl, rfl, fun h => h⟩
      · rw [List.mem_singleton.mp hx]
        exact .inr ⟨hf.locked, hn.locked⟩
  | revoked q =>
    refine ⟨paired_revoke hi _ _, fun p hp _ => hp, fun p hp => .inl ⟨p, hp, rfl, rfl, rfl⟩,
      fun x hx => ?_⟩
    obtain ⟨y, hy, hid, hu, -, -, -, ha⟩ := mem_revoke hx
    exact .inl ⟨y, hy, hid, hu, fun h => ha h ▸ h⟩
  | pending | token | replayed => exact ⟨hi, .refl held d⟩
  | _ => cases ht

variable (hashCode hashtext) in
/-- The assertion about an open call. -/
def Assertion (d : Db H) (c : OpenCall H A) : Prop :=
  Place hashCode hashtext d c.held c.request c.change c.rest

theorem rules : Rules (body hashCode hashtext) always (Paired hashCode)
    (Assertion hashCode hashtext) where
  start q _ := place_start q
  stmt hi h _ hr := h.advance hi hr
  commit hi h hr := by
    rw [Assertion, hr] at h
    exact (h.commit hi).1
  stable hi h hr h' hdis := by
    rw [Assertion, hr] at h
    exact Place.stable h' (h.commit hi).2 hdis

/-! ### What desktops and users are promised -/

/-- The session that a request speaks of, and what it gets of it: a claim makes the device of the
desktop that was shown the code, before the session expires; a token goes to the holder of the
nonce, before the session expires, for the device that the session was claimed for. -/
def Answered (d : Db H) : Request → Answer → Prop
  | .claim q, .device x => x.userId = q.userId ∧
      ∃ p ∈ d.sessions, p.code = q.code ∧ q.now < p.expiresAt ∧ Became p x
  | .status q, .claimed deviceId => ∃ p ∈ d.sessions, p.id = q.sessionId ∧
      p.desktopNonce = q.desktopNonce ∧ q.now < p.expiresAt ∧
      ∃ x ∈ d.devices, x.id = deviceId ∧ Became p x
  | _, _ => True

lemma Place.answered {r : Answer} (hinj : Function.Injective hashCode) (hi : Paired hashCode d)
    (h : Place hashCode hashtext d held q f (.answer (.ok r))) : Answered (f d) q r := by
  generalize ht : Txn.answer (.ok r) = t at h
  cases h with
  | claimed q p hp hn hf =>
    cases ht
    refine ⟨rfl, q.claimed p, (mem_claimed hi hp.mem).mpr (.inl rfl), ?_, hp.expiresAt, ?_⟩
    · exact hinj ((hi.hashed p hp.mem).symm.trans hp.hash)
    · exact ⟨nofun, rfl, rfl, rfl, rfl, rfl⟩
  | token q deviceId hp =>
    cases ht
    obtain ⟨p, hp, hid, hnonce, hexp, hc, hdev⟩ := hp
    rcases hi.claims p hp with hun | ⟨x, hx, hb⟩
    · exact absurd hun.claimedAt hc
    · refine ⟨p, hp, hid, hnonce, hexp, x, hx, ?_, hb⟩
      exact Option.some.inj (hb.device.symm.trans hdev)
  | created | pending | revoked | replayed =>
    cases ht
    exact trivial
  | _ => cases ht

/-- The tables: no user has two active devices, and the sessions that are claimed and the devices
belong together, one to one. -/
structure Safe (d : Db H) : Prop where
  oneActive : ∀ x ∈ d.devices, ∀ y ∈ d.devices, x.active = true → y.active = true →
    x.userId = y.userId → x = y
  yields : ∀ p ∈ d.sessions, p.claimedAt ≠ none → ∃ x ∈ d.devices, Became p x ∧
    ∀ y ∈ d.devices, p.claimedDeviceId = some y.id → y = x
  sources : ∀ x ∈ d.devices, ∃ p ∈ d.sessions, Became p x ∧
    ∀ p' ∈ d.sessions, p'.claimedDeviceId = some x.id → p' = p

omit [DecidableEq H] in
lemma Paired.safe (h : Paired hashCode d) : Safe d := by
  have hid : ∀ x ∈ d.devices, ∀ y ∈ d.devices, x.id = y.id → x = y := fun x hx y hy =>
    List.inj_on_of_nodup_map h.deviceIds hx hy
  refine ⟨h.oneActive, fun p hp hc => ?_, fun x hx => ?_⟩
  · rcases h.claims p hp with hun | ⟨x, hx, hb⟩
    · exact absurd hun.claimedAt hc
    · refine ⟨x, hx, hb, fun y hy hd => hid y hy x hx ?_⟩
      exact Option.some.inj (hd.symm.trans hb.device)
  · obtain ⟨p, hp, hd⟩ := h.sources x hx
    refine ⟨p, hp, ?_, fun p' hp' hd' => h.once p' hp' p hp x.id hd' hd⟩
    rcases h.claims p hp with hun | ⟨y, hy, hb⟩
    · rw [hun.device] at hd
      cases hd
    · rw [hb.device] at hd
      exact hid y hy x hx (Option.some.inj hd) ▸ hb

/-- **Pairing is safe**: in every order of the statements of any number of requests, no user has
two active devices, claimed sessions and devices belong together one to one, a claimed session
stays as it is, and every answer keeps its promise, where no two codes have one hash. -/
theorem pairing_safe (hinj : Function.Injective hashCode) {s s' : World H A}
    (hr : Runs (body hashCode hashtext) always (.quiet .empty) s)
    (hr' : Runs (body hashCode hashtext) always s s') :
    Safe s'.db ∧ (∀ p ∈ s.db.sessions, p.claimedAt ≠ none → p ∈ s'.db.sessions) ∧
    ∀ i c r, s'.calls i = some c → c.rest = .answer (.ok r) →
      Answered (c.view s'.db) c.request r := by
  have hs : Sound (Paired hashCode) (Assertion hashCode hashtext) s :=
    rules.run (.quiet .empty) hr
  have hs' := rules.run hs hr'
  refine ⟨hs'.db.safe, ?_, fun i c r hc hrest => ?_⟩
  · refine rules.run_rel (P := fun d d' : Db H => ∀ p ∈ d.sessions, p.claimedAt ≠ none →
      p ∈ d'.sessions) hs (fun _ _ hp _ => hp)
      (fun h h' p hp hc => h' p (h p hp hc) hc) (fun hi h hrest => ?_) hr'
    rw [Assertion, hrest] at h
    exact fun p hp hc => (h.commit hi).2.sessions p hp (.inl hc)
  · have h := hs'.call hc
    rw [Assertion, hrest] at h
    exact h.answered hinj hs'.db

/-! ### A token for a revoked device -/

/-- A session that is created and claimed. -/
def sampleClaimed : List (Move Request) :=
  [.begin 0 (.create ⟨"mac", .MACOS, none, 123456, "nonce", 5, 0⟩), .stmt 0, .commit 0,
    .begin 0 (.claim ⟨1, 123456, 7, 1000, 1000⟩), .stmt 0, .stmt 0, .stmt 0, .stmt 0, .stmt 0,
    .commit 0]

/-- The device is revoked, and then the session is polled. -/
def sampleRevoked : List (Move Request) :=
  [.begin 0 (.revokeDevice ⟨1, "USER:1", "key", 7⟩), .stmt 0, .stmt 0, .stmt 0, .stmt 0, .stmt 0,
    .commit 0, .begin 0 (.status ⟨5, "nonce", 2000⟩), .stmt 0]

abbrev SampleWorld := World ℕ Advisory

abbrev sampleBody : Request → Program ℕ Advisory := body Fin.val id

/-- A poll hands out a token for a device that has been revoked. -/
theorem not_pairing_safe : ¬ ∀ s : SampleWorld, Runs sampleBody always (.quiet .empty) s →
    ∀ i c deviceId, s.calls i = some c → c.rest = .answer (.ok (.claimed deviceId)) →
      ∃ x ∈ (c.view s.db).devices, x.id = deviceId ∧ x.active = true := by
  intro h
  have hrun : ((State.quiet .empty : SampleWorld).schedule sampleBody 1
      (sampleClaimed ++ sampleRevoked)).bind (fun s => s.outcome 0 (·.devices)) =
      some (.claimed 7, [⟨7, 1, .MACOS, "mac", none, false⟩]) := by decide +kernel
  obtain ⟨s, hs, ho⟩ := Option.bind_eq_some_iff.mp hrun
  obtain ⟨c, hc, hr, hd⟩ := outcome_eq_some ho
  obtain ⟨x, hx, -, ha⟩ := h s (runs_schedule (below_quiet _) hs) 0 c 7 hc hr
  rw [hd, List.mem_singleton] at hx
  rw [hx] at ha
  cases ha

theorem pairing_safe_sample : ∃ s s' : SampleWorld, Safe s'.db ∧
    (∀ p ∈ s.db.sessions, p.claimedAt ≠ none → p ∈ s'.db.sessions) ∧
    (∀ i c r, s'.calls i = some c → c.rest = .answer (.ok r) →
      Answered (c.view s'.db) c.request r) ∧
    s.db.sessions.map (·.claimedDeviceId) = [some 7] ∧
    (s'.outcome 0 (·.devices)).map (·.1) = some (.claimed 7) := by
  have hrun : ((State.quiet .empty : SampleWorld).schedule sampleBody 1 sampleClaimed).bind
      (fun s => (s.schedule sampleBody 1 sampleRevoked).map fun s' =>
        (s.db.sessions.map (·.claimedDeviceId), (s'.outcome 0 (·.devices)).map (·.1))) =
      some ([some 7], some (.claimed 7)) := by decide +kernel
  obtain ⟨s, hs, hrest⟩ := Option.bind_eq_some_iff.mp hrun
  obtain ⟨s', hs', heq⟩ := Option.map_eq_some_iff.mp hrest
  obtain ⟨hd, ho⟩ := Prod.mk.inj heq
  have hquiet : (State.quiet .empty : SampleWorld).Below 1 := below_quiet _
  obtain ⟨hsafe, hkept, hans⟩ := pairing_safe (fun _ _ h => Fin.ext h)
    (runs_schedule hquiet hs) (runs_schedule (schedule_below hquiet hs) hs')
  exact ⟨s, s', hsafe, hkept, hans, hd, ho⟩

end MouseKeeper.Server.Pairing
