import MouseKeeper.Server.Disconnects

/-!
Requests to revoke a device or to remove a room are carried out once.

What has been committed since the start is a list of rooms and a list of devices that were set
inactive, with the events and the receipts that came in. A call that has locked its key and the
rows it sets adds to each of them what belongs together.
-/

namespace MouseKeeper.Server.Disconnects

open MouseKeeper.ReadCommitted
open MouseKeeper.Storage (Backend Operation)
open MouseKeeper.Storage.Connections (Actor Scope cancelResources rooms devices removed)

@[simp] lemma removed_id (r : Room) : (removed r).id = r.id := rfl

@[simp] lemma removed_removed (r : Room) : removed (removed r) = removed r := rfl

@[simp] lemma revoked_id (v : Device) : (revoked v).id = v.id := rfl

@[simp] lemma revoked_revoked (v : Device) : revoked (revoked v) = revoked v := rfl

/-! ### What is added -/

/-- Rooms and devices that are set inactive, events and receipts that come in. -/
structure Added where
  rooms : List ℕ
  devices : List ℕ
  events : List SyncEvent
  receipts : List Receipt

namespace Added

def none : Added := ⟨[], [], [], []⟩

def append (a b : Added) : Added :=
  ⟨a.rooms ++ b.rooms, a.devices ++ b.devices, a.events ++ b.events, a.receipts ++ b.receipts⟩

/-- From the one store to the other. -/
structure Takes (a : Added) (d d' : Db) : Prop where
  rooms : d'.store.rooms = setRows Room.id a.rooms removed d.store.rooms
  devices : d'.store.devices = setRows Device.id a.devices revoked d.store.devices
  events : d'.events = d.events ++ a.events
  receipts : d'.receipts = d.receipts ++ a.receipts

def roomLock (roomId : ℕ) : Storage.Lock := .room roomId 0

def deviceLock (deviceId : ℕ) : Storage.Lock := .device deviceId 0

def receiptLock (r : Receipt) : Storage.Lock := .receipt r.actorScope r.idempotencyKey

/-- The locks that are needed to add it. -/
def locks (a : Added) : List Storage.Lock :=
  a.rooms.map roomLock ++ a.devices.map deviceLock ++ a.receipts.map receiptLock

variable {a b : Added} {d d' d'' : Db}

lemma takes_none (d : Db) : none.Takes d d :=
  ⟨setRows_nil.symm, setRows_nil.symm, (List.append_nil _).symm, (List.append_nil _).symm⟩

lemma Takes.append (h : a.Takes d d') (h' : b.Takes d' d'') : (a.append b).Takes d d'' where
  rooms := by rw [h'.rooms, h.rooms, setRows_setRows removed_id removed_removed, Added.append]
  devices := by rw [h'.devices, h.devices, setRows_setRows revoked_id revoked_revoked, Added.append]
  events := by rw [h'.events, h.events, List.append_assoc, Added.append]
  receipts := by rw [h'.receipts, h.receipts, List.append_assoc, Added.append]

@[simp] lemma mem_locks_append {l : Storage.Lock} :
    l ∈ (a.append b).locks ↔ l ∈ a.locks ∨ l ∈ b.locks := by
  simp only [locks, append, List.map_append, List.mem_append]
  tauto

end Added

/-! ### What the others do -/

/-- What the others do while the locks are held. -/
def Allowed (held : List Storage.Lock) (d d' : Db) : Prop :=
  ∃ a : Added, a.Takes d d' ∧ a.locks.Disjoint held

namespace Allowed

variable {held held' : List Storage.Lock} {d d' d'' : Db}

lemma refl (held : List Storage.Lock) (d : Db) : Allowed held d d :=
  ⟨.none, Added.takes_none d, fun _ hl => by cases hl⟩

lemma trans (h : Allowed held d d') (h' : Allowed held d' d'') : Allowed held d d'' := by
  obtain ⟨a, ha, hda⟩ := h
  obtain ⟨b, hb, hdb⟩ := h'
  refine ⟨a.append b, ha.append hb, fun l hl hheld => ?_⟩
  rcases Added.mem_locks_append.mp hl with hl | hl
  · exact hda hl hheld
  · exact hdb hl hheld

lemma mono (h : Allowed held' d d') (hs : held ⊆ held') : Allowed held d d' := by
  obtain ⟨a, ha, hd⟩ := h
  exact ⟨a, ha, fun l hl hheld => hd hl (hs hheld)⟩

end Allowed

/-! ### What is accounted for -/

def SyncEvent.room? (e : SyncEvent) : Option ℕ :=
  match e.aggregate with
  | .room id => some id
  | .device _ => none

def SyncEvent.device? (e : SyncEvent) : Option ℕ :=
  match e.aggregate with
  | .room _ => none
  | .device id => some id

/-- The room or the device is active. -/
def Active (d : Db) : Aggregate → Prop
  | .room id => ∃ r ∈ d.store.rooms, r.id = id ∧ r.active = true
  | .device id => ∃ v ∈ d.store.devices, v.id = id ∧ v.active = true

def Receipt.key (r : Receipt) : String × String := (r.actorScope, r.idempotencyKey)

/-- The events are those of the rooms and devices, which were active, and the keys are new. -/
structure Added.Orderly (a : Added) (d : Db) : Prop where
  rooms : a.rooms = a.events.filterMap SyncEvent.room?
  devices : a.devices = a.events.filterMap SyncEvent.device?
  nodup : (a.events.map (·.aggregate)).Nodup
  active : ∀ e ∈ a.events, Active d e.aggregate
  keys : ((d.receipts ++ a.receipts).map Receipt.key).Nodup

/-- What the unique indexes say of the tables. -/
structure Ready (d : Db) : Prop where
  rooms : (d.store.rooms.map (·.id)).Nodup
  keys : (d.receipts.map Receipt.key).Nodup

def Accounted (d₀ d : Db) : Prop := ∃ a : Added, a.Takes d₀ d ∧ a.Orderly d₀

section Accounted

variable {a b : Added} {d d' : Db}

lemma Added.Takes.active (h : a.Takes d d') {g : Aggregate} (hg : Active d' g) : Active d g := by
  cases g with
  | room id =>
    obtain ⟨y, hy, hid, ha⟩ := hg
    rw [h.rooms] at hy
    obtain ⟨x, hx, heq⟩ := mem_setRows.mp hy
    split at heq <;> subst heq
    · cases ha
    · exact ⟨x, hx, hid, ha⟩
  | device id =>
    obtain ⟨y, hy, hid, ha⟩ := hg
    rw [h.devices] at hy
    obtain ⟨x, hx, heq⟩ := mem_setRows.mp hy
    split at heq <;> subst heq
    · cases ha
    · exact ⟨x, hx, hid, ha⟩

lemma Added.Takes.not_active_room (h : a.Takes d d') {id : ℕ} (hm : id ∈ a.rooms) :
    ¬ Active d' (.room id) := by
  rintro ⟨y, hy, rfl, ha⟩
  rw [h.rooms] at hy
  obtain ⟨x, -, heq⟩ := mem_setRows.mp hy
  split at heq <;> subst heq
  · cases ha
  · exact absurd hm ‹_›

lemma Added.Takes.not_active_device (h : a.Takes d d') {id : ℕ} (hm : id ∈ a.devices) :
    ¬ Active d' (.device id) := by
  rintro ⟨y, hy, rfl, ha⟩
  rw [h.devices] at hy
  obtain ⟨x, -, heq⟩ := mem_setRows.mp hy
  split at heq <;> subst heq
  · cases ha
  · exact absurd hm ‹_›

/-- The aggregates of the events are not active afterwards. -/
lemma Added.Orderly.not_active {d₀ : Db} (h : a.Orderly d₀) (ht : a.Takes d d') {e : SyncEvent}
    (he : e ∈ a.events) : ¬ Active d' e.aggregate := by
  cases hg : e.aggregate with
  | room id =>
    refine ht.not_active_room ?_
    rw [h.rooms]
    exact List.mem_filterMap.mpr ⟨e, he, by rw [SyncEvent.room?, hg]⟩
  | device id =>
    refine ht.not_active_device ?_
    rw [h.devices]
    exact List.mem_filterMap.mpr ⟨e, he, by rw [SyncEvent.device?, hg]⟩

lemma accounted_self (h : Ready d) : Accounted d d := by
  refine ⟨.none, Added.takes_none d, ⟨rfl, rfl, List.nodup_nil, fun e he => (by cases he), ?_⟩⟩
  rw [Added.none, List.append_nil]
  exact h.keys

lemma Accounted.append {d₀ : Db} (h : Accounted d₀ d) (ht : b.Takes d d') (hb : b.Orderly d) :
    Accounted d₀ d' := by
  obtain ⟨a, ha, ho⟩ := h
  refine ⟨a.append b, ha.append ht, ⟨?_, ?_, ?_, fun e he => ?_, ?_⟩⟩
  · rw [Added.append, ho.rooms, hb.rooms, List.filterMap_append]
  · rw [Added.append, ho.devices, hb.devices, List.filterMap_append]
  · rw [Added.append, List.map_append]
    refine ho.nodup.append hb.nodup fun g hg hg' => ?_
    obtain ⟨e, he, rfl⟩ := List.mem_map.mp hg
    obtain ⟨e', he', heq⟩ := List.mem_map.mp hg'
    exact ho.not_active ha he (heq ▸ hb.active e' he')
  · rcases List.mem_append.mp he with he | he
    · exact ho.active e he
    · exact ha.active (hb.active e he)
  · have hk := hb.keys
    rw [ha.receipts, List.append_assoc] at hk
    exact hk

lemma Accounted.ready {d₀ : Db} (h₀ : Ready d₀) (h : Accounted d₀ d) : Ready d := by
  obtain ⟨a, ha, ho⟩ := h
  refine ⟨?_, ?_⟩
  · rw [ha.rooms, map_id_setRows fun r _ _ => removed_id r]
    exact h₀.rooms
  · rw [ha.receipts]
    exact ho.keys

end Accounted

/-! ### Locked rows -/

section Locked

variable {a : Added} {held held' : List Storage.Lock} {d d' : Db}

lemma Added.Takes.mem_room (h : a.Takes d d') {r : Room} (hr : r ∈ d'.store.rooms)
    (ha : r.active = true) : r ∈ d.store.rooms := by
  rw [h.rooms] at hr
  obtain ⟨x, hx, heq⟩ := mem_setRows.mp hr
  split at heq <;> subst heq
  · cases ha
  · exact hx

lemma Allowed.room (h : Allowed held d d') {r : Room} (hr : r ∈ d.store.rooms)
    (hl : Added.roomLock r.id ∈ held) : r ∈ d'.store.rooms := by
  obtain ⟨a, ha, hd⟩ := h
  rw [ha.rooms]
  refine mem_setRows_of_not_mem hr fun hm => hd ?_ hl
  exact List.mem_append_left _ (List.mem_append_left _ (List.mem_map_of_mem hm))

lemma Allowed.device (h : Allowed held d d') {v : Device} (hv : v ∈ d.store.devices)
    (hl : Added.deviceLock v.id ∈ held) : v ∈ d'.store.devices := by
  obtain ⟨a, ha, hd⟩ := h
  rw [ha.devices]
  refine mem_setRows_of_not_mem hv fun hm => hd ?_ hl
  exact List.mem_append_left _ (List.mem_append_right _ (List.mem_map_of_mem hm))

/-- The key is locked, and no receipt stands under it. -/
structure Keyed (m : Mutation) (held : List Storage.Lock) (d : Db) : Prop where
  lock : .receipt m.actor.actorScope m.idempotencyKey ∈ held
  fresh : ∀ r ∈ d.receipts, m.hasKey r = false

lemma Mutation.hasKey_iff {m : Mutation} {r : Receipt} : m.hasKey r = true ↔
    r.actorScope = m.actor.actorScope ∧ r.idempotencyKey = m.idempotencyKey := by
  rw [hasKey, Bool.and_eq_true_iff, decide_eq_true_iff, decide_eq_true_iff]

lemma Keyed.rely {m : Mutation} (h : Keyed m held d) (hd : Allowed held d d') :
    Keyed m held d' := by
  obtain ⟨a, ha, hdis⟩ := hd
  refine ⟨h.lock, fun r hr => ?_⟩
  rw [ha.receipts] at hr
  rcases List.mem_append.mp hr with hr | hr
  · exact h.fresh r hr
  · by_contra hk
    rw [Bool.not_eq_false] at hk
    obtain ⟨hs, hkey⟩ := Mutation.hasKey_iff.mp hk
    refine hdis (List.mem_append_right _ (List.mem_map_of_mem hr)) ?_
    rw [Added.receiptLock, hs, hkey]
    exact h.lock

lemma Keyed.mono {m : Mutation} (h : Keyed m held d) (hs : held ⊆ held') : Keyed m held' d :=
  ⟨hs h.lock, h.fresh⟩

end Locked

/-! ### What a request does -/

/-- The device with its rooms, or the room. -/
def Request.Changed : Request → Db → Db → Prop
  | .revokeDevice q, d, d' => Active d (.device q.deviceId) ∧
      d'.store.devices = setRows Device.id [q.deviceId] revoked d.store.devices ∧
      d'.store.rooms = setRows Room.desktopDeviceId [q.deviceId] removed d.store.rooms
  | .removeRoom q, d, d' => Active d (.room q.roomId) ∧
      d'.store.devices = d.store.devices ∧
      d'.store.rooms = setRows Room.id [q.roomId] removed d.store.rooms

/-- A request that goes through is the first under its key, or it finds its receipt. -/
inductive Committed (q : Request) (d d' : Db) (o : Outcome) : Prop
  | replayed (r : Receipt) (hr : r ∈ d.receipts) (hk : q.mutation.hasKey r = true)
    (operation : r.operation = q.mutation.operation)
    (aggregate : r.aggregateId = q.mutation.aggregateId) (same : d' = d)
    (answer : o = q.mutation.replay r)
  | first (fresh : ∀ r ∈ d.receipts, q.mutation.hasKey r = false)
    (receipts : d'.receipts = d.receipts ++ [q.mutation.receipt o.response])
    (events : d'.events = d.events ++ o.events) (changed : q.Changed d d')

/-- A receipt under the request's key is about something else. -/
def Conflicts (q : Request) (d : Db) : Prop :=
  ∃ r ∈ d.receipts, q.mutation.hasKey r = true ∧
    (r.operation ≠ q.mutation.operation ∨ r.aggregateId ≠ q.mutation.aggregateId)

/-! ### The protocol -/

def protocol (d₀ : Db) : Protocol Db Storage.Lock where
  inv := Accounted d₀
  rely := Allowed
  refl := Allowed.refl
  trans := Allowed.trans

/-- The change adds what is given. -/
def Added.Of (a : Added) (f : Db → Db) : Prop := ∀ d, a.Takes d (f d)

variable {n : ℕ} {α : Type}

abbrev Keeps (d₀ : Db) (q : Served n) (t : Program) (held : List Storage.Lock) (f : Db → Db)
    (d : Db) : Prop :=
  t.Keeps (protocol d₀) always (fun q => Committed q.2) q held f d

abbrev Refuses (d₀ : Db) (q : Served n) (t : Program) (held : List Storage.Lock) (f : Db → Db)
    (d : Db) : Prop :=
  t.Refuses (protocol d₀) always (fun q d e => e = .idempotencyConflict ↔ Conflicts q.2 d) q held f d

/-- Statements that neither refuse nor change a device or a room. -/
def Harmless : Storage.Program α → Prop
  | .answer (.ok _) => True
  | .answer (.error _) => False
  | .stmt _ change next =>
    (∀ v d, (change v d).devices = d.devices ∧ (change v d).rooms = d.rooms) ∧
      ∀ v, Harmless (next v)

section Harmless

variable {R : Type} {next : Storage.Program R}

lemma harmless_clock {next : ℕ → Storage.Program R} (h : ∀ now, Harmless (next now)) :
    Harmless (Storage.clock next) :=
  ⟨fun _ _ => ⟨rfl, rfl⟩, fun v => h v.now⟩

lemma harmless_modify {change : Storage.Db → Storage.Db}
    (hc : ∀ d, (change d).devices = d.devices ∧ (change d).rooms = d.rooms) (h : Harmless next) :
    Harmless (Storage.modify change next) :=
  ⟨fun _ d => hc d, fun _ => h⟩

lemma harmless_update {T : Storage.Table α} {cond : α → Bool} {set : α → α}
    {next : List α → Storage.Program R}
    (ht : ∀ rows d, (T.put rows d).devices = d.devices ∧ (T.put rows d).rooms = d.rooms)
    (h : ∀ rows, Harmless (next rows)) : Harmless (T.update cond set next) :=
  ⟨fun _ d => ht _ d, fun _ => h _⟩

lemma harmless_cancel (s : Scope) : Harmless (cancel s) := by
  have hbrowses : ∀ s, Harmless (Storage.Connections.cancelBrowses s (.answer (.ok ()))) :=
    fun s => harmless_update (fun _ _ => ⟨rfl, rfl⟩) fun _ =>
      harmless_update (fun _ _ => ⟨rfl, rfl⟩) fun _ => True.intro
  have hrest : Harmless (Storage.Connections.cancelReservations s
      (Storage.Connections.cancelTransfers s
        (Storage.Connections.cancelBrowses s (.answer (.ok ()))))) :=
    harmless_update (fun _ _ => ⟨rfl, rfl⟩) fun _ => harmless_modify (fun _ => ⟨rfl, rfl⟩) <|
      harmless_clock fun _ => harmless_update (fun _ _ => ⟨rfl, rfl⟩) fun _ =>
        harmless_modify (fun _ => ⟨rfl, rfl⟩) (hbrowses s)
  rw [cancel, cancelResources, Storage.Connections.cancelFiles]
  split
  · exact hrest
  · exact harmless_update (fun _ _ => ⟨rfl, rfl⟩) fun _ => harmless_clock fun _ =>
      harmless_modify (fun _ => ⟨rfl, rfl⟩) hrest

end Harmless

/-! ### Statements that keep the protocol -/

section Statements

variable {d₀ d : Db} {q : Served n} {a : Added} {held : List Storage.Lock} {f : Db → Db}
  {t : Storage.Program α} {next : α → Program}

lemma Harmless.keeps (ht : Harmless t) (hf : a.Of f)
    (hn : ∀ x held' f' d', held ⊆ held' → a.Of f' → Allowed held d d' →
      Keeps d₀ q (next x) held' f' d') : Keeps d₀ q (onStore t next) held f d := by
  induction t generalizing held f d with
  | answer r =>
    cases r with
    | error e => exact ht.elim
    | ok x => exact hn x held f d (List.Subset.refl _) hf (.refl held d)
  | stmt locks change k ih =>
    intro d' hd _ _
    refine ih _ (ht.2 _) (fun x => ?_) fun x held' f' d'' hs hf' hd' => ?_
    · have hx := hf x
      have hc := ht.1 (f d').store (f x).store
      exact ⟨hc.2.trans hx.rooms, hc.1.trans hx.devices, hx.events, hx.receipts⟩
    · exact hn x held' f' d'' (fun l hl => hs (List.mem_append_right _ hl)) hf'
        (hd.trans (hd'.mono fun l hl => List.mem_append_right _ hl))

/-- A row is looked for and locked. -/
lemma keeps_selectFor {row : Storage.Db → Option α} {locks : α → List Storage.Lock}
    {next : Option α → Program}
    (hn : ∀ x d', Allowed held d d' → Accounted d₀ d' → row (f d').store = x →
      Keeps d₀ q (next x) (x.elim [] locks ++ held) f d') :
    Keeps d₀ q (onStore (Storage.selectFor row locks fun x => .answer (.ok x)) next) held f d :=
  fun d' hd hi _ => hn _ d' hd hi rfl

lemma keeps_select {row : Storage.Db → Option α} {next : Option α → Program}
    (hn : ∀ x d', Allowed held d d' → Keeps d₀ q (next x) held f d') :
    Keeps d₀ q (onStore (Storage.select row fun x => .answer (.ok x)) next) held f d :=
  fun d' hd _ _ => hn _ d' hd

lemma keeps_append {events : List SyncEvent} {rest : Program} (hf : a.Of f)
    (hn : ∀ f' d', Added.Of { a with events := a.events ++ events } f' → Allowed held d d' →
      Keeps d₀ q rest held f' d') : Keeps d₀ q (append events rest) held f d := by
  induction events generalizing a f d with
  | nil =>
    rw [List.append_nil] at hn
    exact hn f d hf (.refl held d)
  | cons e events ih =>
    intro d' hd _ _
    refine ih (a := { a with events := a.events ++ [e] }) (fun x => ?_) fun f' d'' hf' hd' => ?_
    · obtain ⟨hr, hv, he, hk⟩ := hf x
      exact ⟨hr, hv, by rw [← List.append_assoc, ← he], hk⟩
    · refine hn f' d'' ?_ (hd.trans hd')
      simpa only [List.append_assoc, List.singleton_append] using hf'

/-- The events and the receipt of a request that has set its rows. -/
lemma keeps_record {o : Outcome} (hf : a.Of f) (he : a.events = []) (hr : a.receipts = [])
    (hk : Keyed q.2.mutation held d) (hl : ∀ l ∈ a.locks, l ∈ held)
    (hrooms : a.rooms = o.events.filterMap SyncEvent.room?)
    (hdevices : a.devices = o.events.filterMap SyncEvent.device?)
    (hn : (o.events.map (·.aggregate)).Nodup)
    (hactive : ∀ d', Allowed held d d' → ∀ e ∈ o.events, Active d' e.aggregate)
    (hchanged : ∀ d' d'', Allowed held d d' → Accounted d₀ d' →
      d''.store.rooms = setRows Room.id a.rooms removed d'.store.rooms →
      d''.store.devices = setRows Device.id a.devices revoked d'.store.devices →
      q.2.Changed d' d'') (h₀ : Ready d₀) :
    Keeps d₀ q (append o.events (q.2.mutation.insertReceipt o)) held f d := by
  refine keeps_append hf fun f' d₁ hf' h₁ d₂ h₂ _ _ d₃ h₃ hi _ => ?_
  rw [he, List.nil_append] at hf'
  have hd : Allowed held d d₃ := h₁.trans (h₂.trans h₃)
  have hk₃ := hk.rely hd
  -- the receipt comes last
  have hb : Added.Takes ⟨a.rooms, a.devices, o.events, [q.2.mutation.receipt o.response]⟩ d₃
      { f' d₃ with receipts := (f' d₃).receipts ++ [q.2.mutation.receipt o.response] } := by
    obtain ⟨hrooms', hdevices', hevents', hreceipts'⟩ := hf' d₃
    refine ⟨hrooms', hdevices', hevents', ?_⟩
    rw [show (f' d₃).receipts = d₃.receipts by rw [hreceipts', hr, List.append_nil]]
  refine ⟨hi.append hb ⟨hrooms, hdevices, hn, hactive d₃ hd, ?_⟩, fun held' hdis => ⟨_, hb, ?_⟩,
    .first hk₃.fresh hb.receipts hb.events (hchanged d₃ _ hd hi hb.rooms hb.devices)⟩
  · rw [List.map_append]
    refine (hi.ready h₀).keys.append (List.nodup_singleton _) fun k hk' hm => ?_
    obtain ⟨r, hr', rfl⟩ := List.mem_map.mp hk'
    have heq : r.key = (q.2.mutation.receipt o.response).key := List.mem_singleton.mp hm
    have hkey := Mutation.hasKey_iff.mpr ⟨congrArg Prod.fst heq, congrArg Prod.snd heq⟩
    rw [hk₃.fresh r hr'] at hkey
    cases hkey
  · intro l hl' hheld
    rcases List.mem_append.mp hl' with hl' | hl'
    · exact hdis (hl l (List.mem_append_left _ hl')) hheld
    · rw [List.map_singleton, List.mem_singleton] at hl'
      exact hdis (hl' ▸ hk.lock) hheld

/-- A refusal for another reason, under a key without a receipt. -/
lemma refuses_other {code : Storage.Code} (hk : Keyed q.2.mutation held d)
    (hc : code ≠ .idempotencyConflict) : Refuses d₀ q (refuse code) held f d := by
  intro d' hd _
  refine ⟨fun h => absurd h hc, fun ⟨r, hr, hkey, _⟩ => ?_⟩
  rw [(hk.rely hd).fresh r hr] at hkey
  cases hkey

lemma keeps_withReceipt {mutate : Program}
    (hm : ∀ held f d, Keyed q.2.mutation held d → Added.none.Of f →
      Keeps d₀ q mutate held f d) : Keeps d₀ q (q.2.mutation.withReceipt mutate) [] id d := by
  intro d₁ _ _ _ d₂ _ _ _
  dsimp only
  split
  · rename_i r hr
    split
    · exact True.intro
    · rename_i hsame
      rw [not_or, not_not, not_not] at hsame
      intro d₃ hd hi _
      refine ⟨hi, fun held' _ => .refl held' d₃,
        .replayed r ?_ (List.find?_some hr) hsame.1 hsame.2 rfl rfl⟩
      obtain ⟨a, ha, -⟩ := hd
      rw [ha.receipts]
      exact List.mem_append_left _ (List.mem_of_find?_eq_some hr)
  · rename_i hnone
    refine hm _ _ d₂ ⟨List.mem_append_right _ List.mem_cons_self, fun r hr => ?_⟩
      fun x => Added.takes_none x
    exact Bool.eq_false_iff.mpr (List.find?_eq_none.mp hnone r hr)

lemma refuses_withReceipt {mutate : Program}
    (hm : ∀ held f d, Keyed q.2.mutation held d → Refuses d₀ q mutate held f d) :
    Refuses d₀ q (q.2.mutation.withReceipt mutate) [] id d := by
  intro d₁ _ _ _ d₂ _ _ _
  dsimp only
  split
  · rename_i r hr
    split
    · rename_i hother
      rintro d₃ ⟨a, ha, -⟩ _
      refine ⟨fun _ => ⟨r, ?_, List.find?_some hr, hother⟩, fun _ => rfl⟩
      rw [ha.receipts]
      exact List.mem_append_left _ (List.mem_of_find?_eq_some hr)
    · exact True.intro
  · rename_i hnone
    refine hm _ _ d₂ ⟨List.mem_append_right _ List.mem_cons_self, fun r hr => ?_⟩
    exact Bool.eq_false_iff.mpr (List.find?_eq_none.mp hnone r hr)

end Statements

/-! ### Setting the rows -/

section Update

variable {d₀ d : Db} {q : Served n} {a : Added} {held : List Storage.Lock} {f : Db → Db}
  {b : Backend}

lemma exclusive_zero (b : Backend) (row : ℕ → Storage.Lock) : row 0 ∈ b.exclusive row :=
  List.mem_map_of_mem (List.mem_range.mpr b.connection.pos)

lemma view_rooms (hf : a.Of f) (ha : a.rooms = []) (x : Db) :
    (f x).store.rooms = x.store.rooms := by
  rw [(hf x).rooms, ha, setRows_nil]

lemma view_devices (hf : a.Of f) (ha : a.devices = []) (x : Db) :
    (f x).store.devices = x.store.devices := by
  rw [(hf x).devices, ha, setRows_nil]

/-- Rooms that are locked and active are all set. -/
lemma keeps_updateRooms {roomIds : List ℕ} {next : List Room → Program} (hf : a.Of f)
    (ha : a.rooms = []) (hr : ∀ id ∈ roomIds, Added.roomLock id ∈ held ∧ Active d (.room id))
    (hn : ∀ rs held' f' d', held ⊆ held' → Added.Of { a with rooms := roomIds } f' →
      Allowed held d d' → Keeps d₀ q (next rs) held' f' d') :
    Keeps d₀ q (onStore (updateRooms b roomIds) next) held f d := by
  intro d' hd _ _
  refine hn _ _ _ d' (fun l hl => List.mem_append_right _ hl) (fun x => ?_) hd
  obtain ⟨hrooms, hdevices, hevents, hreceipts⟩ := hf x
  refine ⟨?_, hdevices, hevents, hreceipts⟩
  change setRows Room.id ((rooms b).ids (fun r => r.id ∈ roomIds && r.active) (f d').store) removed
    (f x).store.rooms = setRows Room.id roomIds removed x.store.rooms
  rw [view_rooms hf ha x]
  refine setRows_congr fun y _ => ?_
  rw [Storage.Table.ids, Storage.Table.matching, List.mem_map]
  constructor
  · rintro ⟨z, hz, hid⟩
    have hz := (Bool.and_eq_true_iff.mp (List.mem_filter.mp hz).2).1
    exact hid ▸ of_decide_eq_true hz
  · intro hy
    obtain ⟨hl, z, hz, hid, hact⟩ := hr _ hy
    refine ⟨z, List.mem_filter.mpr ⟨?_, ?_⟩, hid⟩
    · rw [show (rooms b).rows (f d').store = d'.store.rooms from view_rooms hf ha d']
      exact hd.room hz (hid.symm ▸ hl)
    · rw [hact, Bool.and_true, decide_eq_true_iff, hid]
      exact hy

/-- A device that is locked and active is set. -/
lemma keeps_updateDevice {deviceId : ℕ} {next : List Device → Program} (hf : a.Of f)
    (ha : a.devices = []) (hl : Added.deviceLock deviceId ∈ held) (hv : Active d (.device deviceId))
    (hn : ∀ vs held' f' d', held ⊆ held' → Added.Of { a with devices := [deviceId] } f' →
      Allowed held d d' → Keeps d₀ q (next vs) held' f' d') :
    Keeps d₀ q (onStore (updateDevice b deviceId) next) held f d := by
  intro d' hd _ _
  refine hn _ _ _ d' (fun l hl => List.mem_append_right _ hl) (fun x => ?_) hd
  obtain ⟨hrooms, hdevices, hevents, hreceipts⟩ := hf x
  refine ⟨hrooms, ?_, hevents, hreceipts⟩
  change setRows Device.id ((devices b).ids (fun v => v.id = deviceId && v.active) (f d').store)
    revoked (f x).store.devices = setRows Device.id [deviceId] revoked x.store.devices
  rw [view_devices hf ha x]
  refine setRows_congr fun y _ => ?_
  rw [Storage.Table.ids, Storage.Table.matching, List.mem_map, List.mem_singleton]
  constructor
  · rintro ⟨z, hz, hid⟩
    have hz := (Bool.and_eq_true_iff.mp (List.mem_filter.mp hz).2).1
    exact hid ▸ of_decide_eq_true hz
  · intro hy
    obtain ⟨z, hz, hid, hact⟩ := hv
    refine ⟨z, List.mem_filter.mpr ⟨?_, ?_⟩, hid.trans hy.symm⟩
    · rw [show (devices b).rows (f d').store = d'.store.devices from view_devices hf ha d']
      exact hd.device hz (hid.symm ▸ hl)
    · rw [hact, Bool.and_true, decide_eq_true_iff, hid]

end Update

/-! ### revokeDevice -/

namespace RevokeDevice

/-- The device is active and locked, and so are exactly these rooms of it. -/
structure Locked (q : RevokeDevice) (activeRooms : List Room) (held : List Storage.Lock) (d : Db) :
    Prop where
  device : Active d (.device q.deviceId)
  deviceLock : Added.deviceLock q.deviceId ∈ held
  rooms : ∀ r, r ∈ activeRooms ↔
    r ∈ d.store.rooms ∧ r.desktopDeviceId = q.deviceId ∧ r.active = true
  roomLocks : ∀ r ∈ activeRooms, Added.roomLock r.id ∈ held
  nodup : (activeRooms.map (·.id)).Nodup

variable {r : RevokeDevice} {activeRooms : List Room} {held held' : List Storage.Lock} {d d' : Db}

lemma Locked.rely (h : Locked r activeRooms held d) (hd : Allowed held d d') :
    Locked r activeRooms held d' := by
  refine ⟨?_, h.deviceLock, fun x => ⟨fun hx => ?_, fun ⟨hx, hid, ha⟩ => ?_⟩, h.roomLocks, h.nodup⟩
  · obtain ⟨v, hv, hid, ha⟩ := h.device
    exact ⟨v, hd.device hv (hid.symm ▸ h.deviceLock), hid, ha⟩
  · obtain ⟨hm, hid, ha⟩ := (h.rooms x).mp hx
    exact ⟨hd.room hm (h.roomLocks x hx), hid, ha⟩
  · obtain ⟨a, ht, -⟩ := hd
    exact (h.rooms x).mpr ⟨ht.mem_room hx ha, hid, ha⟩

lemma Locked.mono (h : Locked r activeRooms held d) (hs : held ⊆ held') :
    Locked r activeRooms held' d :=
  ⟨h.device, hs h.deviceLock, h.rooms, fun x hx => hs (h.roomLocks x hx), h.nodup⟩

/-- What a commit sets is the device with all its rooms. -/
lemma Locked.changed (h : Locked r activeRooms held d) (hn : (d.store.rooms.map (·.id)).Nodup)
    (hrooms : d'.store.rooms = setRows Room.id (activeRooms.map (·.id)) removed d.store.rooms)
    (hdevices : d'.store.devices = setRows Device.id [r.deviceId] revoked d.store.devices) :
    (Request.revokeDevice r).Changed d d' := by
  refine ⟨h.device, hdevices, hrooms.trans (List.map_congr_left fun x hx => ?_)⟩
  by_cases hid : x.desktopDeviceId = r.deviceId
  · rw [if_pos (List.mem_singleton.mpr hid)]
    cases ha : x.active with
    | true =>
      exact if_pos (List.mem_map_of_mem ((h.rooms x).mpr ⟨hx, hid, ha⟩))
    | false =>
      have hsame : removed x = x := by rw [removed, ← ha]
      rw [hsame, ite_self]
  · rw [if_neg (mt List.mem_singleton.mp hid), if_neg]
    intro hm
    obtain ⟨y, hy, hyid⟩ := List.mem_map.mp hm
    obtain ⟨hy, hdev, -⟩ := (h.rooms y).mp hy
    exact hid (eq_of_id_eq hn hy hx hyid ▸ hdev)

lemma filterMap_room_events (r : RevokeDevice) (activeRooms : List Room) :
    (r.events activeRooms).filterMap SyncEvent.room? = activeRooms.map (·.id) := by
  rw [events, List.filterMap_append, List.filterMap_map]
  exact (List.append_nil _).trans (congrFun List.filterMap_eq_map' activeRooms)

lemma filterMap_device_events (r : RevokeDevice) (activeRooms : List Room) :
    (r.events activeRooms).filterMap SyncEvent.device? = [r.deviceId] := by
  rw [events, List.filterMap_append, List.filterMap_map]
  have hnone : activeRooms.filterMap (SyncEvent.device? ∘ roomRemoved r.actor.userId r.deviceId) =
      [] := List.filterMap_eq_nil_iff.mpr fun _ _ => rfl
  rw [hnone]
  rfl

lemma aggregates_events (r : RevokeDevice) (activeRooms : List Room) :
    (r.events activeRooms).map (·.aggregate) =
      activeRooms.map (fun x => Aggregate.room x.id) ++ [Aggregate.device r.deviceId] := by
  rw [events, List.map_append, List.map_map]
  rfl

lemma nodup_events (h : (activeRooms.map (·.id)).Nodup) :
    ((r.events activeRooms).map (·.aggregate)).Nodup := by
  rw [aggregates_events]
  refine List.Nodup.append ?_ (List.nodup_singleton _) fun g hg hg' => ?_
  · have hmap : activeRooms.map (fun x => Aggregate.room x.id) =
        (activeRooms.map (·.id)).map Aggregate.room := by rw [List.map_map]; rfl
    rw [hmap]
    exact h.map fun _ _ heq => Aggregate.room.inj heq
  · obtain ⟨x, -, rfl⟩ := List.mem_map.mp hg
    cases List.mem_singleton.mp hg'

lemma Locked.active (h : Locked r activeRooms held d) {e : SyncEvent}
    (he : e ∈ r.events activeRooms) : Active d e.aggregate := by
  rcases List.mem_append.mp he with he | he
  · obtain ⟨x, hx, rfl⟩ := List.mem_map.mp he
    obtain ⟨hm, -, ha⟩ := (h.rooms x).mp hx
    exact ⟨x, hm, rfl, ha⟩
  · obtain rfl := List.mem_singleton.mp he
    exact h.device

variable {d₀ : Db} {a : Added} {f : Db → Db} {i : Fin n}

/-- The rooms and the device are set; the events and the receipt follow. -/
lemma keeps_recorded (h₀ : Ready d₀) {v : Device}
    (hf : Added.Of ⟨activeRooms.map (·.id), [r.deviceId], [], []⟩ f)
    (hk : Keyed r.mutation held d) (h : Locked r activeRooms held d) :
    Keeps d₀ (i, .revokeDevice r) (r.record activeRooms v) held f d := by
  refine keeps_record (o := r.outcome activeRooms v) hf rfl rfl hk (fun l hl => ?_)
    (filterMap_room_events r activeRooms).symm (filterMap_device_events r activeRooms).symm
    (nodup_events h.nodup) (fun d' hd e he => (h.rely hd).active he)
    (fun d' d'' hd hi hrooms hdevices =>
      (h.rely hd).changed (hi.ready h₀).rooms hrooms hdevices) h₀
  simp only [Added.locks, List.map_nil, List.append_nil, List.mem_append] at hl
  rcases hl with hl | hl
  · obtain ⟨id, hid, rfl⟩ := List.mem_map.mp hl
    obtain ⟨x, hx, rfl⟩ := List.mem_map.mp hid
    exact h.roomLocks x hx
  · obtain ⟨id, hid, rfl⟩ := List.mem_map.mp hl
    exact List.mem_singleton.mp hid ▸ h.deviceLock

lemma keeps_removeRooms (h₀ : Ready d₀) {v : Device}
    (hf : Added.Of ⟨[], [r.deviceId], [], []⟩ f)
    (hk : Keyed r.mutation held d) (h : Locked r activeRooms held d) :
    Keeps d₀ (i, .revokeDevice r) (r.removeRooms ⟨n, i⟩ activeRooms v) held f d := by
  rw [removeRooms]
  split
  · rename_i hnil
    exact keeps_recorded h₀ (hnil ▸ hf) hk h
  · refine keeps_updateRooms hf rfl (fun id hid => ?_) fun rs held' f' d' hs hf' hd =>
      keeps_recorded h₀ hf' ((hk.rely hd).mono hs) ((h.rely hd).mono hs)
    obtain ⟨x, hx, rfl⟩ := List.mem_map.mp hid
    obtain ⟨hm, -, ha⟩ := (h.rooms x).mp hx
    exact ⟨h.roomLocks x hx, x, hm, rfl, ha⟩

lemma keeps_setRevoked (h₀ : Ready d₀) (hf : Added.none.Of f)
    (hk : Keyed r.mutation held d) (h : Locked r activeRooms held d) :
    Keeps d₀ (i, .revokeDevice r) (r.setRevoked ⟨n, i⟩ activeRooms) held f d := by
  refine keeps_updateDevice hf rfl h.deviceLock h.device fun vs held' f' d' hs hf' hd => ?_
  cases vs with
  | nil => exact True.intro
  | cons v vs => exact keeps_removeRooms h₀ hf' ((hk.rely hd).mono hs) ((h.rely hd).mono hs)

/-- The rooms of the locked device, locked as well. -/
lemma Locked.of_rooms {deviceRooms : List Room} (hv : Active d (.device r.deviceId))
    (hl : Added.deviceLock r.deviceId ∈ held) (hn : (d.store.rooms.map (·.id)).Nodup)
    (hr : deviceRooms = d.store.rooms.filter fun x => x.desktopDeviceId = r.deviceId)
    (hlocks : ∀ x ∈ deviceRooms, Added.roomLock x.id ∈ held) :
    Locked r (deviceRooms.filter (·.active)) held d := by
  subst hr
  refine ⟨hv, hl, fun x => ?_, fun x hx => hlocks x (List.mem_filter.mp hx).1, ?_⟩
  · rw [List.mem_filter, List.mem_filter, decide_eq_true_iff, and_assoc]
  · exact hn.sublist ((List.filter_sublist.trans List.filter_sublist).map _)

lemma keeps_lockRooms (h₀ : Ready d₀) (hf : Added.none.Of f) (hk : Keyed r.mutation held d)
    (hv : ∃ v ∈ d.store.devices, v.id = r.deviceId ∧ v.active = true)
    (hl : Added.deviceLock r.deviceId ∈ held) :
    Keeps d₀ (i, .revokeDevice r)
      (onStore (lockDeviceRooms ⟨n, i⟩ r.deviceId) (r.cancelAll ⟨n, i⟩)) held f d := by
  intro d₁ h₁ hi _
  have hrooms : (rooms ⟨n, i⟩).rows (f d₁).store = d₁.store.rooms := view_rooms hf rfl d₁
  refine (harmless_cancel _).keeps hf fun _ held' f' d' hs hf' hd => ?_
  refine keeps_setRevoked h₀ hf' (((hk.rely h₁).mono (List.subset_append_right _ _)).rely hd
    |>.mono hs) (Locked.rely ?_ hd |>.mono hs)
  obtain ⟨v, hv, hid, ha⟩ := hv
  refine Locked.of_rooms ⟨v, h₁.device hv (hid.symm ▸ hl), hid, ha⟩ (List.mem_append_right _ hl)
    (hi.ready h₀).rooms ?_ fun x hx => List.mem_append_left _ ?_
  · exact congrArg (List.filter _) hrooms
  · exact List.mem_flatMap.mpr ⟨x.id, List.mem_map_of_mem hx, exclusive_zero _ _⟩

/-- The device is found and locked, then its rooms. -/
lemma keeps_mutate (h₀ : Ready d₀) (hf : Added.none.Of f) (hk : Keyed r.mutation held d) :
    Keeps d₀ (i, .revokeDevice r) (r.mutate ⟨n, i⟩) held f d := by
  refine keeps_selectFor fun x d₁ h₁ _ hv => ?_
  cases x with
  | none => exact True.intro
  | some v =>
    have hcond := List.find?_some hv
    simp only [Bool.and_eq_true, decide_eq_true_eq] at hcond
    obtain ⟨⟨hid, -⟩, ha⟩ := hcond
    have hmem : v ∈ d₁.store.devices := view_devices hf rfl d₁ ▸ List.mem_of_find?_eq_some hv
    refine keeps_lockRooms h₀ hf ((hk.rely h₁).mono (List.subset_append_right _ _))
      ⟨v, hmem, hid, ha⟩ (List.mem_append_left _ ?_)
    rw [Added.deviceLock, ← hid]
    exact exclusive_zero ⟨n, i⟩ (.device v.id)

end RevokeDevice

/-! ### removeRoom -/

namespace RemoveRoom

/-- The room is active and locked. -/
structure Locked (q : RemoveRoom) (held : List Storage.Lock) (d : Db) : Prop where
  room : Active d (.room q.roomId)
  lock : Added.roomLock q.roomId ∈ held

variable {r : RemoveRoom} {held held' : List Storage.Lock} {d d' d₀ : Db} {a : Added}
  {f : Db → Db} {i : Fin n} {room : Room}

lemma Locked.rely (h : Locked r held d) (hd : Allowed held d d') : Locked r held d' := by
  obtain ⟨⟨x, hx, hid, ha⟩, hl⟩ := h
  exact ⟨⟨x, hd.room hx (hid.symm ▸ hl), hid, ha⟩, hl⟩

lemma Locked.mono (h : Locked r held d) (hs : held ⊆ held') : Locked r held' d :=
  ⟨h.room, hs h.lock⟩

lemma keeps_recorded (h₀ : Ready d₀) {x : Room} (hid : room.id = r.roomId)
    (hf : Added.Of ⟨[r.roomId], [], [], []⟩ f) (hk : Keyed r.mutation held d)
    (h : Locked r held d) : Keeps d₀ (i, .removeRoom r) (r.record room x) held f d := by
  refine keeps_record (o := r.outcome room x) hf rfl rfl hk (fun l hl => ?_) ?_ rfl
    (List.nodup_singleton _) (fun d' hd e he => ?_) (fun d' d'' hd _ hrooms hdevices =>
      ⟨(h.rely hd).room, hdevices.trans setRows_nil, hrooms⟩) h₀
  · obtain rfl := List.mem_singleton.mp hl
    exact h.lock
  · exact congrArg (fun id => [id]) hid.symm
  · obtain rfl := List.mem_singleton.mp he
    exact (congrArg (fun id => Active d' (.room id)) hid).mpr (h.rely hd).room

lemma keeps_setRemoved (h₀ : Ready d₀) (hid : room.id = r.roomId) (hf : Added.none.Of f)
    (hk : Keyed r.mutation held d) (h : Locked r held d) :
    Keeps d₀ (i, .removeRoom r) (r.setRemoved ⟨n, i⟩ room) held f d := by
  refine keeps_updateRooms hf rfl (fun id hm => ?_) fun rs held' f' d' hs hf' hd => ?_
  · obtain rfl := List.mem_singleton.mp hm
    exact ⟨h.lock, h.room⟩
  · cases rs with
    | nil => exact True.intro
    | cons x rs => exact keeps_recorded h₀ hid hf' ((hk.rely hd).mono hs) ((h.rely hd).mono hs)

/-- The room is found again and locked. -/
lemma keeps_lockFound (h₀ : Ready d₀) {device : Device} (hf : Added.none.Of f)
    (hk : Keyed r.mutation held d) :
    Keeps d₀ (i, .removeRoom r) (r.lockFound ⟨n, i⟩ device) held f d := by
  refine keeps_selectFor fun x d₁ h₁ _ hx => ?_
  cases x with
  | none => exact True.intro
  | some x =>
    have hcond := List.find?_some hx
    simp only [Bool.and_eq_true, decide_eq_true_eq] at hcond
    obtain ⟨⟨⟨hid, -⟩, -⟩, ha⟩ := hcond
    have hmem : x ∈ d₁.store.rooms := view_rooms hf rfl d₁ ▸ List.mem_of_find?_eq_some hx
    have hl : Added.roomLock r.roomId ∈ Backend.exclusive ⟨n, i⟩ (.room x.id) := by
      rw [Added.roomLock, ← hid]
      exact exclusive_zero ⟨n, i⟩ (.room x.id)
    have hlocked : Locked r _ d₁ := ⟨⟨x, hmem, hid, ha⟩, List.mem_append_left held hl⟩
    refine (harmless_cancel _).keeps hf fun _ held' f' d' hs hf' hd => ?_
    exact keeps_setRemoved h₀ hid hf'
      ((((hk.rely h₁).mono (List.subset_append_right _ _)).rely hd).mono hs)
      ((hlocked.rely hd).mono hs)

lemma keeps_mutate (h₀ : Ready d₀) (hf : Added.none.Of f) (hk : Keyed r.mutation held d) :
    Keeps d₀ (i, .removeRoom r) (r.mutate ⟨n, i⟩) held f d := by
  refine keeps_select fun x d₁ h₁ => ?_
  cases x with
  | none => exact True.intro
  | some candidate =>
    dsimp only
    split
    · exact True.intro
    · refine keeps_selectFor fun v d₂ h₂ _ _ => ?_
      cases v with
      | none => exact True.intro
      | some v =>
        exact keeps_lockFound h₀ hf (((hk.rely h₁).rely h₂).mono (List.subset_append_right _ _))

end RemoveRoom

/-! ### Refusals -/

section Refusals

variable {d₀ d : Db} {q : Served n} {held : List Storage.Lock} {f : Db → Db}

/-- Nothing in the transaction refuses for a conflict of keys. -/
def Avoids : Program → Prop
  | .answer (.ok _) => True
  | .answer (.error e) => e ≠ .idempotencyConflict
  | .stmt _ _ next => ∀ d, Avoids (next d)

/-- With its key locked and no receipt under it, a request has no conflict of keys. -/
lemma Avoids.refuses {t : Program} (ht : Avoids t) (hk : Keyed q.2.mutation held d) :
    Refuses d₀ q t held f d := by
  induction t generalizing held f d with
  | answer r =>
    cases r with
    | ok o => exact True.intro
    | error e => exact refuses_other hk ht
  | stmt locks change next ih =>
    exact fun d' hd _ _ => ih _ (ht _) ((hk.rely hd).mono (List.subset_append_right _ _))

/-- The statements do not refuse. -/
def Answers : Storage.Program α → Prop
  | .answer (.ok _) => True
  | .answer (.error _) => False
  | .stmt _ _ next => ∀ d, Answers (next d)

lemma Harmless.answers {t : Storage.Program α} (ht : Harmless t) : Answers t := by
  induction t with
  | answer r =>
    cases r with
    | ok x => exact True.intro
    | error e => exact ht.elim
  | stmt locks change k ih => exact fun d => ih d (ht.2 d)

lemma avoids_onStore {t : Storage.Program α} {next : α → Program} (ht : Answers t)
    (hn : ∀ x, Avoids (next x)) : Avoids (onStore t next) := by
  induction t with
  | answer r =>
    cases r with
    | ok x => exact hn x
    | error e => exact ht.elim
  | stmt locks change k ih => exact fun d => ih d.store (ht d.store)

lemma avoids_append {events : List SyncEvent} {rest : Program} (h : Avoids rest) :
    Avoids (append events rest) := by
  induction events with
  | nil => exact h
  | cons e events ih => exact fun _ => ih

lemma avoids_insertReceipt (m : Mutation) (o : Outcome) : Avoids (m.insertReceipt o) :=
  fun _ => True.intro

lemma avoids_revokeDevice (b : Backend) (r : RevokeDevice) : Avoids (r.mutate b) := by
  have hrecord : ∀ activeRooms v, Avoids (r.record activeRooms v) :=
    fun _ _ => avoids_append (avoids_insertReceipt _ _)
  have hremove : ∀ activeRooms v, Avoids (r.removeRooms b activeRooms v) := by
    intro activeRooms v
    rw [RevokeDevice.removeRooms]
    split
    · exact hrecord _ _
    · exact avoids_onStore (fun _ => True.intro) fun _ => hrecord _ _
  refine avoids_onStore (fun _ => True.intro) fun x => ?_
  cases x with
  | none => exact Storage.Code.noConfusion
  | some _ =>
    refine avoids_onStore (fun _ => True.intro) fun deviceRooms => ?_
    refine avoids_onStore (harmless_cancel _).answers fun _ => ?_
    refine avoids_onStore (fun _ => True.intro) fun vs => ?_
    cases vs with
    | nil => exact Storage.Code.noConfusion
    | cons v vs => exact hremove _ v

lemma avoids_removeRoom (b : Backend) (r : RemoveRoom) : Avoids (r.mutate b) := by
  refine avoids_onStore (fun _ => True.intro) fun x => ?_
  cases x with
  | none => exact Storage.Code.noConfusion
  | some candidate =>
    dsimp only
    split
    · exact Storage.Code.noConfusion
    · refine avoids_onStore (fun _ => True.intro) fun v => ?_
      cases v with
      | none => exact Storage.Code.noConfusion
      | some v =>
        refine avoids_onStore (fun _ => True.intro) fun x => ?_
        cases x with
        | none => exact Storage.Code.noConfusion
        | some room =>
          refine avoids_onStore (harmless_cancel _).answers fun _ => ?_
          refine avoids_onStore (fun _ => True.intro) fun rs => ?_
          cases rs with
          | nil => exact Storage.Code.noConfusion
          | cons x rs => exact avoids_append (avoids_insertReceipt _ _)

end Refusals

/-! ### Every run -/

/-- The device or the room has left the active state. -/
def Left (d₀ d : Db) (g : Aggregate) : Prop := Active d₀ g ∧ ¬ Active d g

/-- Of the events since the start there is one for each that has left, and no other. -/
def OneEventEach (d₀ d : Db) : Prop :=
  ∃ events, d.events = d₀.events ++ events ∧ ∀ g,
    (Left d₀ d g → (events.map (·.aggregate)).count g = 1) ∧
    (¬ Left d₀ d g → (events.map (·.aggregate)).count g = 0)

/-- The requests have the same key of the same actor. -/
def Mutation.SameKey (m m' : Mutation) : Prop :=
  m'.actor.actorScope = m.actor.actorScope ∧ m'.idempotencyKey = m.idempotencyKey

/-- The requests are about the same. -/
def Mutation.SameAggregate (m m' : Mutation) : Prop :=
  m'.operation = m.operation ∧ m'.aggregateId = m.aggregateId

/-- What is committed, refused and repeated in a state. -/
structure DisconnectedOnce (d₀ : Db) (s : World n) : Prop where
  keys : (s.db.receipts.map Receipt.key).Nodup
  events : OneEventEach d₀ s.db
  committed : ∀ {i c o s'}, s.calls i = some c → Step (body n) s (.commit i o) s' →
    Committed c.request.2 s.db s'.db o
  failed : ∀ {e s'}, Step (body n) s e s' → (∀ i o, e ≠ .commit i o) → s'.db = s.db
  refused : ∀ {i c e s'}, s.calls i = some c → Step (body n) s (.refuse i e) s' →
    (e = .idempotencyConflict ↔ Conflicts c.request.2 s.db)
  repeated : ∀ {i c o s₁ s₂ j c' o' s₃}, s.calls i = some c → Step (body n) s (.commit i o) s₁ →
    AskedRuns (body n) always s₁ s₂ → s₂.calls j = some c' → Step (body n) s₂ (.commit j o') s₃ →
    c.request.2.mutation.SameKey c'.request.2.mutation →
    c.request.2.mutation.SameAggregate c'.request.2.mutation ∧
      s₃.db = s₂.db ∧ o'.response = o.response ∧ o'.events = []
  reused : ∀ {i c o s₁ s₂ j c' e s₃}, s.calls i = some c → Step (body n) s (.commit i o) s₁ →
    AskedRuns (body n) always s₁ s₂ → s₂.calls j = some c' → Step (body n) s₂ (.refuse j e) s₃ →
    c.request.2.mutation.SameKey c'.request.2.mutation →
    (e = .idempotencyConflict ↔ ¬ c.request.2.mutation.SameAggregate c'.request.2.mutation)

section EveryRun

variable {d₀ d d' : Db} {q : Request} {o : Outcome} {s : World n}

lemma disconnections_kept (h₀ : Ready d₀) :
    ReadCommitted.Kept (body n) (protocol d₀) always fun q => Committed q.2 := by
  rintro ⟨i, r⟩ d -
  cases r with
  | revokeDevice r => exact keeps_withReceipt fun _ _ _ hk hf => RevokeDevice.keeps_mutate h₀ hf hk
  | removeRoom r => exact keeps_withReceipt fun _ _ _ hk hf => RemoveRoom.keeps_mutate h₀ hf hk

lemma disconnects_refused (d₀ : Db) : Refused (body n) (protocol d₀) always
    fun q d e => e = .idempotencyConflict ↔ Conflicts q.2 d := by
  rintro ⟨i, r⟩ d -
  cases r with
  | revokeDevice r =>
    exact refuses_withReceipt fun _ _ _ hk => (avoids_revokeDevice ⟨n, i⟩ r).refuses hk
  | removeRoom r =>
    exact refuses_withReceipt fun _ _ _ hk => (avoids_removeRoom ⟨n, i⟩ r).refuses hk

lemma Added.Orderly.left_iff {a : Added} (ho : a.Orderly d₀) (ht : a.Takes d₀ d) (g : Aggregate) :
    Left d₀ d g ↔ g ∈ a.events.map (·.aggregate) := by
  constructor
  · rintro ⟨hg, hn⟩
    cases g with
    | room id =>
      obtain ⟨r, hr, rfl, ha⟩ := hg
      have hm : r.id ∈ a.rooms := by
        by_contra hm
        refine hn ⟨r, ?_, rfl, ha⟩
        rw [ht.rooms]
        exact mem_setRows_of_not_mem hr hm
      rw [ho.rooms] at hm
      obtain ⟨e, he, heq⟩ := List.mem_filterMap.mp hm
      refine List.mem_map.mpr ⟨e, he, ?_⟩
      cases hg : e.aggregate with
      | room id => rw [SyncEvent.room?, hg] at heq; rw [Option.some.inj heq]
      | device id => rw [SyncEvent.room?, hg] at heq; cases heq
    | device id =>
      obtain ⟨v, hv, rfl, ha⟩ := hg
      have hm : v.id ∈ a.devices := by
        by_contra hm
        refine hn ⟨v, ?_, rfl, ha⟩
        rw [ht.devices]
        exact mem_setRows_of_not_mem hv hm
      rw [ho.devices] at hm
      obtain ⟨e, he, heq⟩ := List.mem_filterMap.mp hm
      refine List.mem_map.mpr ⟨e, he, ?_⟩
      cases hg : e.aggregate with
      | room id => rw [SyncEvent.device?, hg] at heq; cases heq
      | device id => rw [SyncEvent.device?, hg] at heq; rw [Option.some.inj heq]
  · intro hg
    obtain ⟨e, he, rfl⟩ := List.mem_map.mp hg
    exact ⟨ho.active e he, ho.not_active ht he⟩

lemma Accounted.oneEventEach (h : Accounted d₀ d) : OneEventEach d₀ d := by
  obtain ⟨a, ht, ho⟩ := h
  refine ⟨a.events, ht.events, fun g => ⟨fun hg => ?_, fun hg => ?_⟩⟩
  · exact List.count_eq_one_of_mem ho.nodup ((ho.left_iff ht g).mp hg)
  · exact List.count_eq_zero.mpr (mt (ho.left_iff ht g).mpr hg)

/-- After a commit the receipt under the key is the request's, with the answer. -/
lemma Committed.receipt (h : Committed q d d' o) : ∃ r ∈ d'.receipts, q.mutation.hasKey r = true ∧
    r.operation = q.mutation.operation ∧ r.aggregateId = q.mutation.aggregateId ∧
    r.result = o.response := by
  cases h with
  | replayed r hr hk operation aggregate same answer =>
    subst same answer
    exact ⟨r, hr, hk, operation, aggregate, rfl⟩
  | first fresh receipts events changed =>
    rw [receipts]
    exact ⟨_, List.mem_append_right _ (List.mem_singleton.mpr rfl), Mutation.hasKey_iff.mpr
      ⟨rfl, rfl⟩, rfl, rfl, rfl⟩

lemma Mutation.SameKey.hasKey {m m' : Mutation} (h : m.SameKey m') {r : Receipt}
    (hr : m.hasKey r = true) : m'.hasKey r = true := by
  obtain ⟨hs, hk⟩ := hasKey_iff.mp hr
  exact hasKey_iff.mpr ⟨hs.trans h.1.symm, hk.trans h.2.symm⟩

lemma eq_of_hasKey {m : Mutation} {r r' : Receipt} (hn : (d.receipts.map Receipt.key).Nodup)
    (hr : r ∈ d.receipts) (hr' : r' ∈ d.receipts) (hk : m.hasKey r = true)
    (hk' : m.hasKey r' = true) : r = r' := by
  obtain ⟨hs, hi⟩ := Mutation.hasKey_iff.mp hk
  obtain ⟨hs', hi'⟩ := Mutation.hasKey_iff.mp hk'
  exact List.inj_on_of_nodup_map hn hr hr' (Prod.ext (hs.trans hs'.symm) (hi.trans hi'.symm))

lemma Allowed.receipt {held : List Storage.Lock} (h : Allowed held d d') {r : Receipt}
    (hr : r ∈ d.receipts) : r ∈ d'.receipts := by
  obtain ⟨a, ha, -⟩ := h
  rw [ha.receipts]
  exact List.mem_append_left _ hr

/-- What a commit of a run does. -/
lemma committed_of_run (h₀ : Ready d₀) (hs : AskedRuns (body n) always (.quiet d₀) s) {i : ℕ}
    {c : Call (Served n) Db Storage.Lock Storage.Code Outcome} {s' : World n}
    (hc : s.calls i = some c) (hstep : Step (body n) s (.commit i o) s') :
    Committed c.request.2 s.db s'.db o := by
  have hk := disconnections_kept (n := n) h₀
  have hsound := hk.run (.quiet (show Accounted d₀ d₀ from accounted_self h₀)) hs
  obtain ⟨c', hc', -, hpost⟩ := hk.commits hsound hstep fun _ _ _ _ => True.intro
  rw [hc] at hc'
  cases hc'
  exact hpost

/-- Why a request of a run is refused. -/
lemma refused_of_run (h₀ : Ready d₀) (hs : AskedRuns (body n) always (.quiet d₀) s) {i : ℕ}
    {c : Call (Served n) Db Storage.Lock Storage.Code Outcome} {e : Storage.Code} {s' : World n}
    (hc : s.calls i = some c) (hstep : Step (body n) s (.refuse i e) s') :
    e = .idempotencyConflict ↔ Conflicts c.request.2 s.db := by
  have hquiet : Accounted d₀ d₀ := accounted_self h₀
  have hwhy := (disconnects_refused d₀).run (disconnections_kept h₀) (.quiet hquiet) (.quiet hquiet) hs
  obtain ⟨c', hc', hreason⟩ := Refused.reason hwhy hstep
  rw [hc] at hc'
  cases hc'
  exact hreason

lemma accounted_of_run (h₀ : Ready d₀) (hs : AskedRuns (body n) always (.quiet d₀) s) :
    Accounted d₀ s.db :=
  ((disconnections_kept h₀).run (.quiet (show Accounted d₀ d₀ from accounted_self h₀)) hs).db

/-- The receipt of a commit is still there after more steps. -/
lemma receipt_of_run (h₀ : Ready d₀) (hs : AskedRuns (body n) always (.quiet d₀) s) {i : ℕ}
    {c : Call (Served n) Db Storage.Lock Storage.Code Outcome} {s₁ s₂ : World n}
    (hc : s.calls i = some c) (hstep : Step (body n) s (.commit i o) s₁)
    (hruns : AskedRuns (body n) always s₁ s₂) : AskedRuns (body n) always (.quiet d₀) s₂ ∧
      ∃ r ∈ s₂.db.receipts, c.request.2.mutation.hasKey r = true ∧
        r.operation = c.request.2.mutation.operation ∧
        r.aggregateId = c.request.2.mutation.aggregateId ∧ r.result = o.response := by
  have hs₁ : AskedRuns (body n) always (.quiet d₀) s₁ :=
    hs.tail ⟨_, hstep, fun _ _ _ _ => True.intro⟩
  have hk := disconnections_kept (n := n) h₀
  have hquiet : Accounted d₀ d₀ := accounted_self h₀
  obtain ⟨r, hr, hrest⟩ := (committed_of_run h₀ hs hc hstep).receipt
  have hrely : Allowed [] s₁.db s₂.db := hk.run_rely (hk.run (.quiet hquiet) hs₁) hruns
  exact ⟨hs₁.trans hruns, r, hrely.receipt hr, hrest⟩

end EveryRun

/-! ### A room that is removed before its device is revoked -/

def sampleStore : Storage.Db where
  now := 7
  devices := [⟨1, 9, true⟩]
  rooms := [⟨3, 9, 1, true⟩, ⟨4, 9, 1, true⟩]
  transfers := []
  browses := []
  policies := []
  batches := []
  reservations := []
  files := []
  objectDeletionJobs := []
  cacheDeletionJobs := []
  cacheReservationDeletionJobs := []
  receipts := []

def sampleDb : Db := ⟨sampleStore, [], []⟩

def sampleActor : Actor := ⟨9, none, "USER:9"⟩

/-- The last request repeats the second. -/
def sampleRequests : List (Served 1) :=
  [(0, .removeRoom ⟨sampleActor, 3, "first"⟩), (0, .revokeDevice ⟨sampleActor, 1, "second"⟩),
    (0, .revokeDevice ⟨sampleActor, 1, "second"⟩)]

def serve (d : Db) (l : List (Served 1)) : Db := l.foldl (fun d q => (body 1 q).alone id d) d

lemma askedRuns_serve (d : Db) (l : List (Served 1)) :
    AskedRuns (body 1) always (.quiet d) (.quiet (serve d l)) := by
  induction l generalizing d with
  | nil => exact .refl
  | cons q l ih => exact (askedRuns_alone q d fun _ _ => True.intro).trans (ih _)

end MouseKeeper.Server.Disconnects
