import MouseKeeper.FileEngine.FileIndex
import MouseKeeper.WriteBehind
import Mathlib.Data.Int.Notation

/-!
The registry of managed roots.

The registry is a map from root ids to roots. A root is bound to a room of the server, was
bound to one and has been detached from it, or has never been bound. Every operation looks
at the map and changes it as a whole; the rows of the database are written apart from that.
-/

namespace MouseKeeper.Desktop

open MouseKeeper.Posix MouseKeeper.FileEngine
open MouseKeeper.WriteBehind (Write)

inductive RoomBindingStatus
  | unbound | active | detached
  deriving DecidableEq, Repr

inductive ManagedRootStatus
  | ready | missing | error
  deriving DecidableEq, Repr

structure ManagedRoot where
  rootId : String
  root : String
  displayName : String
  enabled : Bool
  watchOnStartup : Bool
  lastSeenStatus : ManagedRootStatus
  lastError : Option String
  registeredUnixMs : ℤ
  updatedUnixMs : ℤ
  roomId : Option String
  detachedRoomId : Option String
  roomBindingStatus : RoomBindingStatus
  deriving DecidableEq, Repr

structure ManagedRootStatePatch where
  enabled : Option Bool
  watchOnStartup : Option Bool
  deriving DecidableEq, Repr

/-- A root as it is first registered. -/
def ManagedRoot.new (rootId root displayName : String) (now : ℤ) : ManagedRoot :=
  { rootId, root, displayName, enabled := true, watchOnStartup := true, lastSeenStatus := .ready,
    lastError := none, registeredUnixMs := now, updatedUnixMs := now, roomId := none,
    detachedRoomId := none, roomBindingStatus := .unbound }

abbrev Roots := Std.ExtTreeMap String ManagedRoot

/-! ### Overlaps -/

/-- The components of a path; an absolute one starts at the top. -/
def pathComponents (s : String) : List Seg :=
  (if isAbsolute s then [.blank] else []) ++ components (segsOf s)

/-- `a.starts_with(b)`. -/
def startsWith (a b : String) : Prop := pathComponents b <+: pathComponents a

instance : DecidableRel startsWith := fun _ _ => by unfold startsWith; infer_instance

def ensureNotOverlapping (roots : List ManagedRoot) (candidate : ManagedRoot) :
    Except String Unit :=
  match roots with
  | [] => .ok ()
  | existing :: rest =>
    if existing.rootId = candidate.rootId then ensureNotOverlapping rest candidate
    else if pathComponents existing.root = pathComponents candidate.root then
      .error ("managed root is already registered: " ++ candidate.root)
    else if startsWith existing.root candidate.root then
      .error ("managed root overlaps an existing registered child root: candidate=" ++
        candidate.root ++ ", existing=" ++ existing.root)
    else if startsWith candidate.root existing.root then
      .error ("managed root overlaps an existing registered parent root: candidate=" ++
        candidate.root ++ ", existing=" ++ existing.root)
    else ensureNotOverlapping rest candidate

def validateNoOverlaps (roots : List ManagedRoot) : Except String Unit :=
  roots.zipIdx.forM fun candidate =>
    ensureNotOverlapping
      ((roots.zipIdx.filter fun other => other.2 ≠ candidate.2).map Prod.fst) candidate.1

/-! ### Operations -/

namespace ManagedRootStore

def values (roots : Roots) : List ManagedRoot := roots.toList.map Prod.snd

def upsert (roots : Roots) (root : ManagedRoot) : Except String (ManagedRoot × Roots) := do
  ensureNotOverlapping (values roots) root
  return (root, roots.insert root.rootId root)

def get (roots : Roots) (rootId : String) : Except String ManagedRoot :=
  match roots[rootId]? with
  | some root => .ok root
  | none => .error ("managed root is not registered: " ++ rootId)

def updateState (roots : Roots) (rootId : String) (patch : ManagedRootStatePatch) (now : ℤ) :
    Except String (ManagedRoot × Roots) := do
  let root ← get roots rootId
  let updated := { root with
    enabled := patch.enabled.getD root.enabled
    watchOnStartup := patch.watchOnStartup.getD root.watchOnStartup
    updatedUnixMs := now }
  return (updated, roots.insert rootId updated)

def updateHealth (roots : Roots) (rootId : String) (status : ManagedRootStatus)
    (lastError : Option String) (now : ℤ) : Except String (ManagedRoot × Roots) := do
  let root ← get roots rootId
  let updated := { root with lastSeenStatus := status, lastError, updatedUnixMs := now }
  return (updated, roots.insert rootId updated)

/-- Whether there was an entry, and the registry without it. -/
def remove (roots : Roots) (rootId : String) : Bool × Roots :=
  (roots.contains rootId, roots.erase rootId)

/-- The root is bound to the room, or was the last time it was bound. -/
def holdsRoom (roomId : String) (root : ManagedRoot) : Bool :=
  root.roomId = some roomId ∨ root.roomBindingStatus = .detached ∧ root.detachedRoomId = some roomId

def findByRoom (roots : Roots) (roomId : String) : Option ManagedRoot :=
  (values roots).find? (holdsRoom roomId)

def bindRoom (roots : Roots) (rootId roomId : String) (now : ℤ) :
    Except String (ManagedRoot × Roots) :=
  if roomId.toList.all isWhitespace then .error "room binding id cannot be empty"
  else if (values roots).any fun root => root.rootId ≠ rootId ∧ root.roomId = some roomId then
    .error ("room is already bound to another managed root: " ++ roomId)
  else do
    let root ← get roots rootId
    let updated := { root with
      roomId := some roomId
      detachedRoomId := none
      roomBindingStatus := .active
      updatedUnixMs := now }
    return (updated, roots.insert rootId updated)

/-- What `ensure_active_room_binding` finds out before it may bind the room: the root that
is bound to it, or none where a root that has never been bound is to be adopted. -/
def checkActiveRoomBinding (roots : Roots) (rootId roomId : String) :
    Except String (Option ManagedRoot) := do
  let root ← get roots rootId
  match root.roomBindingStatus, root.roomId with
  | .active, some boundRoom =>
    if boundRoom = roomId then return some root
    else throw ("managed root belongs to a different room: root=" ++ rootId ++ ", expected=" ++
      boundRoom ++ ", actual=" ++ roomId)
  | .unbound, none => return none
  | .detached, _ => throw ("managed root is detached from mobile access: " ++ rootId)
  | .unbound, some boundRoom =>
    throw ("managed root belongs to a different room: root=" ++ rootId ++ ", expected=" ++
      boundRoom ++ ", actual=" ++ roomId)
  | .active, none => throw ("managed root has an invalid room binding state: " ++ rootId)

def ensureActiveRoomBinding (roots : Roots) (rootId roomId : String) (now : ℤ) :
    Except String (ManagedRoot × Roots) := do
  match ← checkActiveRoomBinding roots rootId roomId with
  | some root => return (root, roots)
  | none => bindRoom roots rootId roomId now

def detached (root : ManagedRoot) (now : ℤ) : ManagedRoot :=
  { root with
    roomId := none
    detachedRoomId := root.roomId.or root.detachedRoomId
    roomBindingStatus := .detached
    updatedUnixMs := now }

def detachRoom (roots : Roots) (roomId : String) (now : ℤ) : Option (ManagedRoot × Roots) :=
  (roots.toList.find? fun entry => holdsRoom roomId entry.2).map fun entry =>
    (detached entry.2 now, roots.insert entry.1 (detached entry.2 now))

def isBound (root : ManagedRoot) : Bool :=
  root.roomId.isSome ∧ root.roomBindingStatus = .active

def detachAllRooms (roots : Roots) (now : ℤ) : List ManagedRoot × Roots :=
  (((values roots).filter isBound).map (detached · now),
    roots.map fun _ root => if isBound root then detached root now else root)

end ManagedRootStore

/-! ### Rows -/

def ManagedRootStatus.asDbStr : ManagedRootStatus → String
  | .ready => "ready"
  | .missing => "missing"
  | .error => "error"

def ManagedRootStatus.fromDbStr (value : String) : ManagedRootStatus :=
  if value = "missing" then .missing else if value = "error" then .error else .ready

def RoomBindingStatus.asDbStr : RoomBindingStatus → String
  | .unbound => "unbound"
  | .active => "active"
  | .detached => "detached"

def RoomBindingStatus.fromDbStr (value : String) : RoomBindingStatus :=
  if value = "active" then .active else if value = "detached" then .detached else .unbound

/-- A row of `managed_roots`, apart from its key. -/
structure ManagedRootRow where
  canonicalPath : String
  displayName : String
  enabled : ℤ
  watchOnStartup : ℤ
  lastSeenStatus : String
  lastError : Option String
  registeredUnixMs : ℤ
  updatedUnixMs : ℤ
  roomId : Option String
  detachedRoomId : Option String
  roomBindingStatus : String
  deriving DecidableEq, Repr

abbrev Rows := Std.ExtTreeMap String ManagedRootRow

def boolInt (value : Bool) : ℤ := if value then 1 else 0

def intBool (value : ℤ) : Bool := value ≠ 0

/-- The row that `upsert_root` writes. -/
def ManagedRoot.toRow (root : ManagedRoot) : ManagedRootRow :=
  { canonicalPath := root.root
    displayName := root.displayName
    enabled := boolInt root.enabled
    watchOnStartup := boolInt root.watchOnStartup
    lastSeenStatus := root.lastSeenStatus.asDbStr
    lastError := root.lastError
    registeredUnixMs := root.registeredUnixMs
    updatedUnixMs := root.updatedUnixMs
    roomId := root.roomId
    detachedRoomId := root.detachedRoomId
    roomBindingStatus := root.roomBindingStatus.asDbStr }

/-- The root that `read_roots` makes of a row. -/
def ManagedRootRow.toRoot (rootId : String) (row : ManagedRootRow) : ManagedRoot :=
  { rootId
    root := row.canonicalPath
    displayName := row.displayName
    enabled := intBool row.enabled
    watchOnStartup := intBool row.watchOnStartup
    lastSeenStatus := .fromDbStr row.lastSeenStatus
    lastError := row.lastError
    registeredUnixMs := row.registeredUnixMs
    updatedUnixMs := row.updatedUnixMs
    roomId := row.roomId
    detachedRoomId := row.detachedRoomId
    roomBindingStatus := .fromDbStr row.roomBindingStatus }

/-- What `migrate` does to the rows that have all columns. -/
def ManagedRootRow.migrate (row : ManagedRootRow) : ManagedRootRow :=
  if row.roomBindingStatus = "detached" ∧ row.roomId.isSome then
    { row with detachedRoomId := row.detachedRoomId.or row.roomId, roomId := none }
  else row

/-- `canonical_path` is unique, and a row of another root may hold it already. -/
def refused (rows : Rows) (write : Write String ManagedRootRow) : Bool :=
  match write.value with
  | some row => rows.toList.any fun entry =>
      entry.1 ≠ write.key ∧ entry.2.canonicalPath = row.canonicalPath
  | none => false

def persist (root : ManagedRoot) : Write String ManagedRootRow := ⟨root.rootId, some root.toRow⟩

def deletePersisted (rootId : String) : Write String ManagedRootRow := ⟨rootId, none⟩

/-- The rows once they have been migrated, and the registry that is read from them. -/
def loadFromDb (rows : Rows) : Rows × Except String Roots :=
  let rows := rows.map fun _ row => row.migrate
  let loaded : Roots := rows.map fun rootId row => row.toRoot rootId
  (rows, do
    validateNoOverlaps (ManagedRootStore.values loaded)
    return loaded)

/-! ### What the operations keep -/

/-- Neither of the two paths lies in the other, and they differ. -/
def Apart (a b : ManagedRoot) : Prop := ¬ startsWith a.root b.root ∧ ¬ startsWith b.root a.root

/-- A root names a room exactly if it is bound to it. -/
def ManagedRoot.Consistent (root : ManagedRoot) : Prop :=
  root.roomId.isSome ↔ root.roomBindingStatus = .active

/-- The registry of a desktop that knows what it serves. -/
structure WellBound (roots : Roots) : Prop where
  keyed : ∀ {id : String} {root : ManagedRoot}, roots[id]? = some root → root.rootId = id
  apart : ∀ {a b : String} {ra rb : ManagedRoot}, roots[a]? = some ra → roots[b]? = some rb →
    a ≠ b → Apart ra rb
  consistent : ∀ {id : String} {root : ManagedRoot}, roots[id]? = some root → root.Consistent
  room : ∀ {a b room : String} {ra rb : ManagedRoot}, roots[a]? = some ra → roots[b]? = some rb →
    ra.roomId = some room → rb.roomId = some room → a = b

section Lemmas

variable {roots roots' : Roots} {root updated r : ManagedRoot} {id room : String} {now : ℤ}

lemma Apart.symm {a b : ManagedRoot} (h : Apart a b) : Apart b a := ⟨h.2, h.1⟩

lemma mem_values : root ∈ ManagedRootStore.values roots ↔ ∃ id : String, roots[id]? = some root := by
  rw [ManagedRootStore.values, List.mem_map]
  constructor
  · rintro ⟨⟨id, r⟩, h, rfl⟩
    exact ⟨id, Std.ExtTreeMap.mem_toList_iff_getElem?_eq_some.mp h⟩
  · rintro ⟨id, h⟩
    exact ⟨(id, root), Std.ExtTreeMap.mem_toList_iff_getElem?_eq_some.mpr h, rfl⟩

lemma ensureNotOverlapping_ok {l : List ManagedRoot} :
    ensureNotOverlapping l root = .ok () ↔ ∀ e ∈ l, e.rootId ≠ root.rootId → Apart e root := by
  induction l with
  | nil => simp [ensureNotOverlapping]
  | cons e l ih =>
    rw [List.forall_mem_cons, ensureNotOverlapping]
    by_cases hid : e.rootId = root.rootId
    · simp [hid, ih]
    · rw [if_neg hid]
      split_ifs with heq hchild hparent
      · simp [hid, Apart, startsWith, heq]
      · simp [hid, Apart, hchild]
      · simp [hid, Apart, hparent]
      · simp [hid, Apart, hchild, hparent, ih]

lemma WellBound.insert (h : WellBound roots) (hid : root.rootId = id)
    (hapart : ∀ {k : String} {e : ManagedRoot}, roots[k]? = some e → k ≠ id → Apart e root) (hc : root.Consistent)
    (hroom : ∀ {k : String} {e : ManagedRoot} {room : String}, roots[k]? = some e → k ≠ id →
      root.roomId = some room → e.roomId ≠ some room) :
    WellBound (roots.insert id root) := by
  have hget : ∀ {k : String} {e : ManagedRoot}, (roots.insert id root)[k]? = some e →
      k = id ∧ e = root ∨ k ≠ id ∧ roots[k]? = some e := fun {k e} hk => by
    rw [Std.ExtTreeMap.getElem?_insert] at hk
    split_ifs at hk with hcmp
    · exact .inl ⟨(Std.LawfulEqCmp.eq_of_compare hcmp).symm, (Option.some.inj hk).symm⟩
    · exact .inr ⟨fun h' => hcmp (by simp [h']), hk⟩
  refine ⟨fun hk => ?_, fun {a b ra rb} ha hb hab => ?_, fun hk => ?_,
    fun {a b x ra rb} ha hb hra hrb => ?_⟩
  · obtain ⟨rfl, rfl⟩ | ⟨-, hk⟩ := hget hk
    · exact hid
    · exact h.keyed hk
  · obtain ⟨rfl, rfl⟩ | ⟨hna, ha'⟩ := hget ha <;> obtain ⟨rfl, rfl⟩ | ⟨hnb, hb'⟩ := hget hb
    · exact absurd rfl hab
    · exact (hapart hb' hnb).symm
    · exact hapart ha' hna
    · exact h.apart ha' hb' hab
  · obtain ⟨rfl, rfl⟩ | ⟨-, hk⟩ := hget hk
    · exact hc
    · exact h.consistent hk
  · obtain ⟨rfl, rfl⟩ | ⟨hna, ha'⟩ := hget ha <;> obtain ⟨rfl, rfl⟩ | ⟨hnb, hb'⟩ := hget hb
    · rfl
    · exact absurd hrb (hroom hb' hnb hra)
    · exact absurd hra (hroom ha' hna hrb)
    · exact h.room ha' hb' hra hrb

/-- A root may change in place, as long as its room is still its own. -/
lemma WellBound.update (h : WellBound roots) (hr : roots[id]? = some root)
    (hid : updated.rootId = root.rootId) (hpath : updated.root = root.root)
    (hc : updated.Consistent)
    (hroom : ∀ {k : String} {e : ManagedRoot} {room : String}, roots[k]? = some e → k ≠ id →
      updated.roomId = some room → e.roomId ≠ some room) :
    WellBound (roots.insert id updated) :=
  h.insert (hid.trans (h.keyed hr))
    (fun hk hne => by
      have := h.apart hk hr hne
      rwa [Apart, hpath])
    hc hroom

lemma WellBound.erase (h : WellBound roots) : WellBound (roots.erase id) := by
  have hget : ∀ {k : String} {e : ManagedRoot}, (roots.erase id)[k]? = some e →
      roots[k]? = some e := fun {k e} hk => by
    rw [Std.ExtTreeMap.getElem?_erase] at hk
    split_ifs at hk
    exact hk
  exact ⟨fun hk => h.keyed (hget hk), fun ha hb => h.apart (hget ha) (hget hb),
    fun hk => h.consistent (hget hk), fun ha hb => h.room (hget ha) (hget hb)⟩

/-- The root is bound, as the registry has it. -/
def ActiveIn (roots : Roots) (id : String) : Prop :=
  ∃ root, roots[id]? = some root ∧ root.roomBindingStatus = .active

/-- What an operation does to a well bound registry: it stays well bound, what is to be
written is what it now says of those roots, the others are as they were, and no root but
the one that is being bound becomes active. -/
structure Change (binds : Option String) (roots : Roots) (ws : List (Write String ManagedRootRow))
    (roots' : Roots) : Prop where
  wellBound : WellBound roots'
  written : ∀ w ∈ ws, w.value = roots'[w.key]?.map ManagedRoot.toRow
  kept : ∀ id, (∀ w ∈ ws, w.key ≠ id) → roots'[id]? = roots[id]?
  active : ∀ {id}, ActiveIn roots' id → ActiveIn roots id ∨ binds = some id

lemma Change.insert (hw : WellBound (roots.insert id root)) (hid : root.rootId = id)
    {binds : Option String}
    (hactive : root.roomBindingStatus = .active → ActiveIn roots id ∨ binds = some id) :
    Change binds roots [persist root] (roots.insert id root) where
  wellBound := hw
  written := by simp [persist, hid]
  kept := fun k hk => by
    have : id ≠ k := hid ▸ hk _ List.mem_cons_self
    simp [Std.ExtTreeMap.getElem?_insert, this]
  active := by
    rintro k ⟨r, hr, ha⟩
    rw [Std.ExtTreeMap.getElem?_insert] at hr
    split_ifs at hr with hcmp
    · obtain rfl := Std.LawfulEqCmp.eq_of_compare hcmp
      cases hr
      exact hactive ha
    · exact .inl ⟨r, hr, ha⟩

open ManagedRootStore

lemma get_ok : ManagedRootStore.get roots id = .ok root ↔ roots[id]? = some root := by
  unfold ManagedRootStore.get
  cases roots[id]? <;> simp

/-- A change that leaves the path and the binding of a root alone. -/
lemma change_of_same_binding (h : WellBound roots) (hr : roots[id]? = some root)
    (hid : updated.rootId = root.rootId) (hpath : updated.root = root.root)
    (hroom : updated.roomId = root.roomId)
    (hstatus : updated.roomBindingStatus = root.roomBindingStatus) :
    Change none roots [persist updated] (roots.insert id updated) := by
  refine .insert (h.update hr hid hpath ?_ fun hk hne hroom' he => ?_) (hid.trans (h.keyed hr))
    fun ha => .inl ⟨root, hr, hstatus ▸ ha⟩
  · simpa [ManagedRoot.Consistent, hroom, hstatus] using h.consistent hr
  · exact hne (h.room hk hr he (hroom ▸ hroom'))

lemma upsert_change (h : WellBound roots) (hc : root.Consistent)
    (hroom : ∀ {k : String} {e : ManagedRoot} {room : String}, roots[k]? = some e →
      k ≠ root.rootId → root.roomId = some room → e.roomId ≠ some room)
    (hu : upsert roots root = .ok (r, roots')) :
    Change (some root.rootId) roots [persist r] roots' := by
  unfold upsert at hu
  cases ho : ensureNotOverlapping (values roots) root with
  | error e => simp [ho, bind, Except.bind] at hu
  | ok u =>
    simp only [ho, bind, Except.bind, pure, Except.pure, Except.ok.injEq, Prod.mk.injEq] at hu
    obtain ⟨rfl, rfl⟩ := hu
    have hapart := ensureNotOverlapping_ok.mp ho
    exact .insert
      (h.insert rfl (fun hk hne => hapart _ (mem_values.mpr ⟨_, hk⟩) (by rwa [h.keyed hk]))
        hc hroom) rfl fun _ => .inr rfl

lemma updateState_change {patch : ManagedRootStatePatch} (h : WellBound roots)
    (hu : updateState roots id patch now = .ok (r, roots')) :
    Change none roots [persist r] roots' := by
  unfold updateState at hu
  cases hg : ManagedRootStore.get roots id with
  | error e => simp [hg, bind, Except.bind] at hu
  | ok root =>
    simp only [hg, bind, Except.bind, pure, Except.pure, Except.ok.injEq, Prod.mk.injEq] at hu
    obtain ⟨rfl, rfl⟩ := hu
    exact change_of_same_binding h (get_ok.mp hg) rfl rfl rfl rfl

lemma updateHealth_change {status : ManagedRootStatus} {lastError : Option String}
    (h : WellBound roots) (hu : updateHealth roots id status lastError now = .ok (r, roots')) :
    Change none roots [persist r] roots' := by
  unfold updateHealth at hu
  cases hg : ManagedRootStore.get roots id with
  | error e => simp [hg, bind, Except.bind] at hu
  | ok root =>
    simp only [hg, bind, Except.bind, pure, Except.pure, Except.ok.injEq, Prod.mk.injEq] at hu
    obtain ⟨rfl, rfl⟩ := hu
    exact change_of_same_binding h (get_ok.mp hg) rfl rfl rfl rfl

lemma bindRoom_change (h : WellBound roots) (hb : bindRoom roots id room now = .ok (r, roots')) :
    Change (some id) roots [persist r] roots' := by
  unfold bindRoom at hb
  split_ifs at hb with hblank hany
  cases hg : ManagedRootStore.get roots id with
  | error e => simp [hg, bind, Except.bind] at hb
  | ok root =>
    simp only [hg, bind, Except.bind, pure, Except.pure, Except.ok.injEq, Prod.mk.injEq] at hb
    obtain ⟨rfl, rfl⟩ := hb
    have hr := get_ok.mp hg
    have hid : root.rootId = id := h.keyed hr
    refine .insert (h.update hr ?_ ?_ ?_ fun hk hne hx he => ?_) ?_ fun _ => .inr rfl
    rotate_right
    · exact hid
    · rfl
    · rfl
    · simp [ManagedRoot.Consistent]
    · -- Another root that has the room would have stopped the call.
      refine hany (List.any_eq_true.mpr ⟨_, mem_values.mpr ⟨_, hk⟩, ?_⟩)
      simpa [h.keyed hk, hne] using he.trans hx.symm

lemma detached_consistent : (ManagedRootStore.detached root now).Consistent := by
  simp [ManagedRoot.Consistent, ManagedRootStore.detached]

lemma detachRoom_change (h : WellBound roots)
    (hd : detachRoom roots room now = some (r, roots')) :
    Change none roots [persist r] roots' := by
  obtain ⟨⟨id, root⟩, hf, he⟩ := Option.map_eq_some_iff.mp hd
  cases he
  have hr : roots[id]? = some root :=
    Std.ExtTreeMap.mem_toList_iff_getElem?_eq_some.mp (List.mem_of_find?_eq_some hf)
  have hid : root.rootId = id := h.keyed hr
  refine .insert (h.update hr ?_ ?_ detached_consistent fun _ _ hx => ?_) ?_ fun ha => ?_
  · rfl
  · rfl
  · cases hx
  · exact hid
  · cases ha

lemma remove_change (h : WellBound roots) :
    Change none roots [deletePersisted id] (remove roots id).2 where
  wellBound := h.erase
  written := by simp [deletePersisted, remove]
  kept := fun k hk => by
    have : id ≠ k := hk _ List.mem_cons_self
    simp [remove, Std.ExtTreeMap.getElem?_erase, this]
  active := by
    rintro k ⟨r, hr, ha⟩
    rw [remove, Std.ExtTreeMap.getElem?_erase] at hr
    split_ifs at hr
    exact .inl ⟨r, hr, ha⟩

lemma isBound_iff (h : root.Consistent) :
    isBound root = true ↔ root.roomBindingStatus = .active := by
  simp only [isBound, decide_eq_true_eq]
  exact ⟨fun h' => h'.2, fun h' => ⟨h.mpr h', h'⟩⟩

/-- What stands at an id once every room has been detached. -/
lemma detachAllRooms_get : (detachAllRooms roots now).2[id]? =
    roots[id]?.map fun root => if isBound root then ManagedRootStore.detached root now else root := by
  simp [detachAllRooms, Std.ExtTreeMap.getElem?_map]

lemma detachAllRooms_change (h : WellBound roots) :
    Change none roots ((detachAllRooms roots now).1.map persist) (detachAllRooms roots now).2 := by
  have hget : ∀ {k : String} {e : ManagedRoot}, (detachAllRooms roots now).2[k]? = some e →
      ∃ root, roots[k]? = some root ∧ e.rootId = root.rootId ∧ e.root = root.root ∧
        e.Consistent ∧ e.roomBindingStatus ≠ .active ∧ e.roomId = none := by
    intro k e hk
    rw [detachAllRooms_get] at hk
    obtain ⟨root, hr, rfl⟩ := Option.map_eq_some_iff.mp hk
    have hc := h.consistent hr
    refine ⟨root, hr, ?_⟩
    split_ifs with hb
    · exact ⟨rfl, rfl, detached_consistent, by simp [ManagedRootStore.detached], rfl⟩
    · rw [isBound_iff hc] at hb
      exact ⟨rfl, rfl, hc, hb, by simpa using fun h' => hb (hc.mp h')⟩
  refine ⟨⟨fun hk => ?_, fun ha hb hne => ?_, fun hk => ?_, fun ha _ hx => ?_⟩, ?_, ?_, ?_⟩
  · obtain ⟨root, hr, hid, -⟩ := hget hk
    exact hid.trans (h.keyed hr)
  · obtain ⟨ra, hra, -, hpa, -⟩ := hget ha
    obtain ⟨rb, hrb, -, hpb, -⟩ := hget hb
    rw [Apart, hpa, hpb]
    exact h.apart hra hrb hne
  · obtain ⟨_, -, -, -, hc, -⟩ := hget hk
    exact hc
  · obtain ⟨_, -, -, -, -, -, hn⟩ := hget ha
    rw [hn] at hx
    cases hx
  · intro w hw
    simp only [detachAllRooms, List.map_map, List.mem_map, List.mem_filter] at hw
    obtain ⟨root, ⟨hm, hb⟩, rfl⟩ := hw
    obtain ⟨k, hk⟩ := mem_values.mp hm
    have hid : root.rootId = k := h.keyed hk
    simp [persist, detachAllRooms_get, ManagedRootStore.detached, hid, hk, hb]
  · -- A root that nothing is written for was not bound.
    intro k hk
    rw [detachAllRooms_get]
    cases hr : roots[k]? with
    | none => rfl
    | some root =>
      have hb : isBound root = false := by
        by_contra hb
        have hid : root.rootId = k := h.keyed hr
        refine hk (persist (ManagedRootStore.detached root now)) ?_ hid
        simp only [detachAllRooms, List.map_map, List.mem_map, List.mem_filter]
        exact ⟨root, ⟨mem_values.mpr ⟨k, hr⟩, by simpa using hb⟩, rfl⟩
      simp [hb]
  · rintro k ⟨e, he, ha⟩
    obtain ⟨_, -, -, -, -, hn, -⟩ := hget he
    exact absurd ha hn

/-! ### Finding a room -/

/-- A value put in the place of another leaves the order of the entries as it is. -/
lemma toList_insert (hr : roots[id]? = some root) :
    (roots.insert id updated).toList =
      roots.toList.map fun e => if e.1 = id then (id, updated) else e := by
  have hmem : ∀ {m : Roots} {e : String × ManagedRoot}, e ∈ m.toList ↔ m[e.1]? = some e.2 :=
    Std.ExtTreeMap.mem_toList_iff_getElem?_eq_some
  have hsorted : ∀ m : Roots, m.toList.Pairwise fun a b => compare a.1 b.1 = .lt :=
    fun m => Std.ExtTreeMap.ordered_keys_toList
  have hnodup : ∀ {l : List (String × ManagedRoot)},
      l.Pairwise (fun a b => compare a.1 b.1 = .lt) → l.Nodup := fun h =>
    h.imp fun {a b} hlt he => by
      subst he
      simp at hlt
  have hmap : (roots.toList.map fun e => if e.1 = id then (id, updated) else e).Pairwise
      fun a b => compare a.1 b.1 = .lt := by
    refine List.pairwise_map.mpr ((hsorted roots).imp fun {a b} hlt => ?_)
    split_ifs with ha hb hb
    · rw [ha, hb] at hlt
      simp at hlt
    · rwa [ha] at hlt
    · rwa [hb] at hlt
    · exact hlt
  refine List.Perm.eq_of_pairwise (fun a b _ _ hab hba => ?_) (hsorted _) hmap
    ((List.perm_ext_iff_of_nodup (hnodup (hsorted _)) (hnodup hmap)).mpr fun e => ?_)
  · have := Std.OrientedCmp.gt_iff_lt.mpr hab
    rw [hba] at this
    cases this
  · rw [hmem, Std.ExtTreeMap.getElem?_insert, List.mem_map]
    constructor
    · intro h
      split_ifs at h with hcmp
      · have hid : e.1 = id := (Std.LawfulEqCmp.eq_of_compare hcmp).symm
        cases h
        exact ⟨(id, root), hmem.mpr hr, by simp [← hid]⟩
      · exact ⟨e, hmem.mpr h, if_neg fun h' => hcmp (by simp [h'])⟩
    · rintro ⟨e', he', rfl⟩
      by_cases hid : e'.1 = id
      · simp [hid]
      · have hcmp : compare id e'.1 ≠ .eq := fun h' => hid (Std.LawfulEqCmp.eq_of_compare h').symm
        simpa [hid, hcmp] using hmem.mp he'

/-- A detached root holds the room it was bound to, and no other. -/
lemma holdsRoom_detached (hn : root.roomBindingStatus ≠ .detached) (hr : holdsRoom room root = true)
    (y : String) : holdsRoom y (ManagedRootStore.detached root now) = holdsRoom y root := by
  simp only [holdsRoom, decide_eq_true_eq] at hr
  obtain hr | ⟨hd, -⟩ := hr
  · simp [holdsRoom, ManagedRootStore.detached, hr, hn]
  · exact absurd hd hn

lemma findByRoom_eq : findByRoom roots room =
    (roots.toList.find? fun e => holdsRoom room e.2).map Prod.snd :=
  List.find?_map ..

lemma find_map {α : Type} {l : List α} {f : α → α} {p : α → Bool}
    (h : ∀ e ∈ l, p (f e) = p e) : (l.map f).find? p = (l.find? p).map f := by
  induction l with
  | nil => rfl
  | cons e l ih =>
    obtain ⟨hp, hl⟩ := List.forall_mem_cons.mp h
    cases he : p e with
    | true => simp [he, hp]
    | false => simpa [List.find?_cons, he, hp] using ih hl

/-- Detaching a room changes the one root that is found by it, and every room is still found
where it was. -/
lemma detachRoom_of_find (hf : findByRoom roots room = some root)
    (hn : root.roomBindingStatus ≠ .detached) :
    ∃ roots', detachRoom roots room now = some (ManagedRootStore.detached root now, roots') ∧
      findByRoom roots' room = some (ManagedRootStore.detached root now) ∧
      ∀ y, Option.Rel (fun r r' => r' = r ∨ r = root ∧ r' = ManagedRootStore.detached root now)
        (findByRoom roots y) (findByRoom roots' y) := by
  rw [findByRoom_eq] at hf
  obtain ⟨⟨id, r⟩, he, rfl⟩ := Option.map_eq_some_iff.mp hf
  have hvalue : ∀ e ∈ roots.toList, roots[e.1]? = some e.2 := fun e h =>
    Std.ExtTreeMap.mem_toList_iff_getElem?_eq_some.mp h
  have hr : roots[id]? = some r := hvalue _ (List.mem_of_find?_eq_some he)
  have hholds : holdsRoom room r = true := List.find?_some (p := fun e : String × ManagedRoot => holdsRoom room e.2) he
  have hthis : ∀ e ∈ roots.toList, e.1 = id → e.2 = r := fun e h hid => by
    have := hvalue e h
    rw [hid, hr] at this
    exact (Option.some.inj this).symm
  -- The rooms are held by the same entries as before.
  have hfind : ∀ y, findByRoom (roots.insert id (ManagedRootStore.detached r now)) y =
      (roots.toList.find? fun e => holdsRoom y e.2).map
        fun e => if e.1 = id then ManagedRootStore.detached r now else e.2 := by
    intro y
    rw [findByRoom_eq, toList_insert hr, find_map fun e h => ?_, Option.map_map]
    · congr 1
      funext e
      simp only [Function.comp]
      split_ifs <;> rfl
    · split_ifs with hid
      · rw [hthis e h hid]
        exact holdsRoom_detached hn hholds y
      · rfl
  refine ⟨roots.insert id (ManagedRootStore.detached r now), ?_, ?_, fun y => ?_⟩
  · simp only [detachRoom, he, Option.map_some]
  · rw [hfind, he]
    simp
  · rw [hfind, findByRoom_eq]
    cases hy : roots.toList.find? fun e => holdsRoom y e.2 with
    | none => exact .none
    | some e =>
      by_cases hid : e.1 = id
      · exact .some (.inr ⟨hthis e (List.mem_of_find?_eq_some hy) hid, if_pos hid⟩)
      · exact .some (.inl (if_neg hid))

/-! ### Rows -/

@[simp] lemma toRoot_toRow : root.toRow.toRoot root.rootId = root := by
  have hb : ∀ b, intBool (boolInt b) = b := by decide
  have hs : ∀ s, ManagedRootStatus.fromDbStr s.asDbStr = s := by
    intro s
    cases s <;> decide
  have hr : ∀ s, RoomBindingStatus.fromDbStr s.asDbStr = s := by
    intro s
    cases s <;> decide
  simp [ManagedRoot.toRow, ManagedRootRow.toRoot, hb, hs, hr]

lemma migrate_toRow (h : root.Consistent) : root.toRow.migrate = root.toRow := by
  unfold ManagedRootRow.migrate
  rw [if_neg]
  rintro ⟨hs, hr⟩
  have ha : root.roomBindingStatus = .active := h.mp hr
  simp [ManagedRoot.toRow, ha, RoomBindingStatus.asDbStr] at hs

lemma validateNoOverlaps_ok {l : List ManagedRoot}
    (h : ∀ a ∈ l, ∀ b ∈ l, a.rootId ≠ b.rootId → Apart a b) : validateNoOverlaps l = .ok () := by
  have hall : ∀ cs : List (ManagedRoot × ℕ), (∀ c ∈ cs, c.1 ∈ l) →
      (cs.forM fun candidate => ensureNotOverlapping
        ((l.zipIdx.filter fun other => other.2 ≠ candidate.2).map Prod.fst) candidate.1) =
        .ok () := by
    intro cs hcs
    induction cs with
    | nil => rfl
    | cons c cs ih =>
      obtain ⟨hc, hcs⟩ := List.forall_mem_cons.mp hcs
      have hone : ensureNotOverlapping
          ((l.zipIdx.filter fun other => other.2 ≠ c.2).map Prod.fst) c.1 = .ok () := by
        refine ensureNotOverlapping_ok.mpr fun e he hne => ?_
        obtain ⟨e', hm, rfl⟩ := List.mem_map.mp he
        exact h e'.1 (List.fst_mem_of_mem_zipIdx (List.mem_filter.mp hm).1) c.1 hc hne
      rw [List.forM, hone]
      exact ih hcs
  exact hall _ fun c hc => List.fst_mem_of_mem_zipIdx hc

/-- **Rows that say what the registry says are read as the registry.** -/
theorem loadFromDb_eq {rows : Rows} (h : WellBound roots)
    (hrows : ∀ id : String, rows[id]? = roots[id]?.map ManagedRoot.toRow) :
    loadFromDb rows = (rows, .ok roots) := by
  have hmigrate : rows.map (fun _ row => row.migrate) = rows := by
    refine Std.ExtTreeMap.ext_getElem? fun k => ?_
    rw [Std.ExtTreeMap.getElem?_map, hrows]
    cases hr : roots[k]? with
    | none => rfl
    | some root => simp [migrate_toRow (h.consistent hr)]
  have hload : rows.map (fun rootId row => row.toRoot rootId) = roots := by
    refine Std.ExtTreeMap.ext_getElem? fun k => ?_
    rw [Std.ExtTreeMap.getElem?_map, hrows]
    cases hr : roots[k]? with
    | none => rfl
    | some root => simp [← h.keyed hr]
  have hvalid : validateNoOverlaps (values roots) = .ok () := by
    refine validateNoOverlaps_ok fun a ha b hb hne => ?_
    obtain ⟨ka, hka⟩ := mem_values.mp ha
    obtain ⟨kb, hkb⟩ := mem_values.mp hb
    rw [h.keyed hka, h.keyed hkb] at hne
    exact h.apart hka hkb hne
  simp only [loadFromDb, hmigrate, hload, hvalid, bind, Except.bind, pure, Except.pure]

end Lemmas

end MouseKeeper.Desktop
