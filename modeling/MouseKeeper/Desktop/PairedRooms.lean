import MouseKeeper.Desktop.ManagedRoots
import MouseKeeper.Machine
import Mathlib.Data.List.Nodup
import Mathlib.Logic.Function.Basic

/-!
Folders and rooms: how the desktop finds or creates the room of a root, binds it, and takes the
removal of a room from the events.

The calls of one desktop and the rooms of its device. A request that the desktop has given up may
still arrive. A command may have an unbound root adopted by its room.
-/

namespace MouseKeeper.Desktop.RoomPairing

open MouseKeeper.Machine MouseKeeper.Posix

structure ServerRoom where
  id : String
  rootAlias : String
  active : Bool
  deriving DecidableEq

/-- A call of `ensure_room_for_root` with the bind that follows it, or the adoption of a root. -/
inductive RoomCall
  | fresh
  | entering (rootId : String)
  | listing (rootId : String)
  | posting (rootId : String)
  | binding (rootId roomId : String)
  | adopting (rootId roomId : String)
  | done
  deriving DecidableEq

/-- The rooms, the removals that the desktop has not replayed, its roots, the lock, the requests
on their way with their calls, and the answers. -/
structure State where
  rooms : List ServerRoom
  removals : List String
  roots : Roots
  roomSyncLock : Option ℕ
  posts : List (ℕ × String)
  answers : List (ℕ × String)
  calls : ℕ → RoomCall

inductive Event
  | register (rootId root displayName : String) (now : ℤ)
  | ensureRoomForRoot (call : ℕ) (rootId : String)
  | enter (call : ℕ)
  /-- The answer to `GET /v1/rooms`, of whose rooms any with the alias may be the first. -/
  | list (call : ℕ) (found : Option String)
  /-- `POST /v1/rooms` comes to the server. -/
  | create (call : ℕ) (roomId : String)
  | created (call : ℕ)
  | fail (call : ℕ)
  | bind (call : ℕ) (now : ℤ)
  | rootIdForRoom (call : ℕ) (roomId : String)
  | adopt (call : ℕ) (now : ℤ)
  | removeRoom (roomId : String)
  | replay (now : ℤ)

namespace State

def init : State where
  rooms := []
  removals := []
  roots := ∅
  roomSyncLock := none
  posts := []
  answers := []
  calls _ := .fresh

variable (s : State)

def setCall (c : ℕ) (call : RoomCall) : State := { s with calls := Function.update s.calls c call }

lemma calls_setCall {c : ℕ} {call : RoomCall} : (s.setCall c call).calls c = call :=
  Function.update_self ..

lemma calls_setCall_of_ne {c d : ℕ} {call : RoomCall} (h : d ≠ c) :
    (s.setCall c call).calls d = s.calls d :=
  Function.update_of_ne h ..

def unlock (c : ℕ) : State :=
  { s with roomSyncLock := if s.roomSyncLock = some c then none else s.roomSyncLock }

def register (rootId root displayName : String) (now : ℤ) : Option State :=
  match ManagedRootStore.upsert s.roots (.new rootId root displayName now) with
  | .ok (_, roots) => some { s with roots := roots }
  | .error _ => none

def ensureRoomForRoot (c : ℕ) (rootId : String) : Option State :=
  match s.calls c, s.roots[rootId]? with
  | .fresh, some root => if root.enabled then some (s.setCall c (.entering rootId)) else none
  | _, _ => none

def enter (c : ℕ) : Option State :=
  match s.calls c, s.roomSyncLock with
  | .entering rootId, none => some ({ s with roomSyncLock := some c }.setCall c (.listing rootId))
  | _, _ => none

def list (c : ℕ) (found : Option String) : Option State :=
  match s.calls c, found with
  | .listing rootId, some roomId =>
    if ⟨roomId, rootId, true⟩ ∈ s.rooms then
      some ((s.unlock c).setCall c (.binding rootId roomId))
    else none
  | .listing rootId, none =>
    if s.rooms.all fun x => !x.active || x.rootAlias ≠ rootId then
      some ({ s with posts := s.posts ++ [(c, rootId)] }.setCall c (.posting rootId))
    else none
  | _, _ => none

/-- `RoomsController.create`, with a new id. -/
def create (c : ℕ) (roomId : String) : Option State :=
  match s.posts.find? fun p => p.1 = c with
  | some post =>
    if roomId ∉ s.rooms.map (·.id) then
      some { s with
        rooms := s.rooms ++ [⟨roomId, post.2, true⟩]
        posts := s.posts.erase post
        answers := s.answers ++ [(c, roomId)] }
    else none
  | none => none

def created (c : ℕ) : Option State :=
  match s.calls c, s.answers.find? fun a => a.1 = c with
  | .posting rootId, some answer =>
    some ((s.unlock c).setCall c (.binding rootId answer.2))
  | _, _ => none

/-- A request fails, or nobody waits for it any more. -/
def fail (c : ℕ) : Option State :=
  match s.calls c with
  | .entering _ | .listing _ | .posting _ | .adopting _ _ => some ((s.unlock c).setCall c .done)
  | .fresh | .binding _ _ | .done => none

/-- What a change of the registry leaves. -/
def changed (result : Except String (ManagedRoot × Roots)) : State :=
  match result with
  | .ok (_, roots) => { s with roots := roots }
  | .error _ => s

def bind (c : ℕ) (now : ℤ) : Option State :=
  match s.calls c with
  | .binding rootId roomId =>
    some ((s.changed (ManagedRootStore.bindRoom s.roots rootId roomId now)).setCall c .done)
  | _ => none

def rootIdForRoom (c : ℕ) (roomId : String) : Option State :=
  match s.calls c, s.rooms.find? fun x => x.id = roomId && x.active with
  | .fresh, some room => some (s.setCall c (.adopting room.rootAlias roomId))
  | _, _ => none

def adopt (c : ℕ) (now : ℤ) : Option State :=
  match s.calls c with
  | .adopting rootId roomId =>
    some ((s.changed (ManagedRootStore.ensureActiveRoomBinding s.roots rootId roomId now)).setCall c
      .done)
  | _ => none

def removeRoom (roomId : String) : Option State :=
  if s.rooms.any fun x => x.id = roomId && x.active then
    some { s with
      rooms := s.rooms.map fun x => if x.id = roomId then { x with active := false } else x
      removals := s.removals ++ [roomId] }
  else none

/-- The next removal is replayed. -/
def replay (now : ℤ) : Option State :=
  match s.removals with
  | [] => none
  | roomId :: removals =>
    match ManagedRootStore.detachRoom s.roots roomId now with
    | some (_, roots) => some { s with removals := removals, roots := roots }
    | none => some { s with removals := removals }

def step : Event → Option State
  | .register rootId root displayName now => s.register rootId root displayName now
  | .ensureRoomForRoot c rootId => s.ensureRoomForRoot c rootId
  | .enter c => s.enter c
  | .list c found => s.list c found
  | .create c roomId => s.create c roomId
  | .created c => s.created c
  | .fail c => s.fail c
  | .bind c now => s.bind c now
  | .rootIdForRoom c roomId => s.rootIdForRoom c roomId
  | .adopt c now => s.adopt c now
  | .removeRoom roomId => s.removeRoom roomId
  | .replay now => s.replay now

/-! ### What is asked -/

/-- No call is in progress, and all removals have been replayed. -/
def Quiet : Prop := (∀ c, s.calls c = .fresh ∨ s.calls c = .done) ∧ s.removals = []

structure Paired : Prop where
  one : ∀ x ∈ s.rooms, ∀ y ∈ s.rooms, x.active = true → y.active = true →
    x.rootAlias = y.rootAlias → x = y
  bound : s.Quiet → ∀ (id : String) root roomId, s.roots[id]? = some root →
    root.roomBindingStatus = .active → root.roomId = some roomId →
      ∀ x ∈ s.rooms, x.id = roomId → x.active = true

/-! ### The condition -/

/-- The removal of the room has not been replayed. -/
def Live (roomId : String) : Prop :=
  roomId ∈ s.removals ∨ ∃ x ∈ s.rooms, x.id = roomId ∧ x.active = true

instance (roomId : String) : Decidable (s.Live roomId) := by unfold Live; infer_instance

end State

/-- The call binds its root only to a room whose removal has not been replayed. -/
def RoomCall.BindsLive (s : State) (now : ℤ) : RoomCall → Prop
  | .binding rootId roomId =>
    (ManagedRootStore.bindRoom s.roots rootId roomId now).isOk = true → s.Live roomId
  | .adopting rootId roomId =>
    ManagedRootStore.checkActiveRoomBinding s.roots rootId roomId = .ok none →
      (ManagedRootStore.bindRoom s.roots rootId roomId now).isOk = true → s.Live roomId
  | _ => True

instance (s : State) (now : ℤ) : ∀ call : RoomCall, Decidable (call.BindsLive s now)
  | .binding _ _ => inferInstanceAs (Decidable (_ → _))
  | .adopting _ _ => inferInstanceAs (Decidable (_ → _))
  | .fresh | .entering _ | .listing _ | .posting _ | .done => .isTrue trivial

namespace State

variable (s : State)

/-- A room is created only for a root that has none, and a root is bound to a room only as long as
its removal has not been replayed. -/
def Careful : Event → Prop
  | .create c _ => ∀ p ∈ s.posts, p.1 = c → ∀ x ∈ s.rooms, x.active = true → x.rootAlias ≠ p.2
  | .bind c now => (s.calls c).BindsLive s now
  | .adopt c now => (s.calls c).BindsLive s now
  | _ => True

instance : ∀ e, Decidable (s.Careful e)
  | .create .. => inferInstanceAs (Decidable (∀ _ ∈ _, _ → _))
  | .bind c now => inferInstanceAs (Decidable ((s.calls c).BindsLive s now))
  | .adopt c now => inferInstanceAs (Decidable ((s.calls c).BindsLive s now))
  | .register .. | .ensureRoomForRoot .. | .enter .. | .list .. | .created .. | .fail ..
  | .rootIdForRoom .. | .removeRoom .. | .replay .. => .isTrue trivial

/-! ### What lasts -/

/-- A room of the root. -/
def Knows (roomId rootId : String) : Prop := ∃ x ∈ s.rooms, x.id = roomId ∧ x.rootAlias = rootId

end State

/-- The requests and the answers of a call are about its root. -/
def RoomCall.Good (s : State) (c : ℕ) : RoomCall → Prop
  | .fresh | .entering _ | .listing _ => (∀ p ∈ s.posts, p.1 ≠ c) ∧ ∀ a ∈ s.answers, a.1 ≠ c
  | .posting rootId => (∀ p ∈ s.posts, p.1 = c → p.2 = rootId) ∧
    ∀ a ∈ s.answers, a.1 = c → s.Knows a.2 rootId
  | .binding rootId roomId | .adopting rootId roomId => s.Knows roomId rootId
  | .done => True

namespace State

structure Inv (s : State) : Prop where
  one : ∀ x ∈ s.rooms, ∀ y ∈ s.rooms, x.active = true → y.active = true →
    x.rootAlias = y.rootAlias → x = y
  ids : (s.rooms.map (·.id)).Nodup
  held : ∀ (id : String) root roomId, s.roots[id]? = some root →
    root.roomId = some roomId ∨ root.detachedRoomId = some roomId → s.Knows roomId id
  live : ∀ (id : String) root roomId, s.roots[id]? = some root →
    root.roomBindingStatus = .active → root.roomId = some roomId → s.Live roomId
  calls : ∀ c, (s.calls c).Good s c

variable {s} {t : State} {c : ℕ}

lemma Inv.paired (h : Inv s) : s.Paired where
  one := h.one
  bound hquiet id root roomId hroot hactive hroom x hx hid := by
    rcases h.live id root roomId hroot hactive hroom with hremoved | ⟨y, hy, hyid, hy'⟩
    · rw [hquiet.2] at hremoved
      cases hremoved
    · rw [List.inj_on_of_nodup_map h.ids hx hy (hid.trans hyid.symm)]
      exact hy'

end State

lemma RoomCall.Good.mono {s t : State} {c : ℕ} {call : RoomCall} (h : call.Good s c)
    (hrooms : ∀ roomId rootId, s.Knows roomId rootId → t.Knows roomId rootId)
    (hposts : ∀ p ∈ t.posts, p.1 = c → p ∈ s.posts)
    (hanswers : ∀ a ∈ t.answers, a.1 = c → a ∈ s.answers) : call.Good t c := by
  have hnone (h : (∀ p ∈ s.posts, p.1 ≠ c) ∧ ∀ a ∈ s.answers, a.1 ≠ c) :
      (∀ p ∈ t.posts, p.1 ≠ c) ∧ ∀ a ∈ t.answers, a.1 ≠ c :=
    ⟨fun p hp hc => h.1 p (hposts p hp hc) hc, fun a ha hc => h.2 a (hanswers a ha hc) hc⟩
  cases call with
  | fresh => exact hnone h
  | entering rootId => exact hnone h
  | listing rootId => exact hnone h
  | posting rootId =>
    exact ⟨fun p hp hc => h.1 p (hposts p hp hc) hc, fun a ha hc =>
      hrooms _ _ (h.2 a (hanswers a ha hc) hc)⟩
  | binding rootId roomId => exact hrooms _ _ h
  | adopting rootId roomId => exact hrooms _ _ h
  | done => trivial

/-- It is only about the rooms, the requests and the answers. -/
lemma RoomCall.Good.congr {s t : State} {c : ℕ} {call : RoomCall} (h : call.Good s c)
    (hrooms : t.rooms = s.rooms) (hposts : t.posts = s.posts) (hanswers : t.answers = s.answers) :
    call.Good t c := by
  refine h.mono (fun roomId rootId hknows => ?_) (fun p hp _ => hposts ▸ hp) fun a ha _ =>
    hanswers ▸ ha
  rw [State.Knows, hrooms]
  exact hknows

namespace State

variable {s t : State} {c : ℕ} {call : RoomCall}

lemma inv_init : Inv .init where
  one _ hx := by cases hx
  ids := .nil
  held id root _ h := by simp [init] at h
  live id root _ h := by simp [init] at h
  calls _ := ⟨nofun, nofun⟩

/-- A call goes on, where only the lock may change. -/
lemma Inv.setCall (h : Inv s) (hcall : call.Good s c) : Inv (s.setCall c call) := by
  refine ⟨h.one, h.ids, h.held, h.live, fun d => ?_⟩
  rcases eq_or_ne d c with rfl | hne
  · rw [calls_setCall]
    exact hcall.congr rfl rfl rfl
  · rw [calls_setCall_of_ne s hne]
    exact (h.calls d).congr rfl rfl rfl

lemma Inv.unlock (h : Inv s) (c : ℕ) : Inv (s.unlock c) :=
  ⟨h.one, h.ids, h.held, h.live, fun d => (h.calls d).congr rfl rfl rfl⟩

/-- One root of the registry changes. -/
lemma Inv.setRoot {rootId : String} {root : ManagedRoot} (h : Inv s)
    (hheld : ∀ roomId, root.roomId = some roomId ∨ root.detachedRoomId = some roomId →
      s.Knows roomId rootId)
    (hlive : ∀ roomId, root.roomBindingStatus = .active → root.roomId = some roomId →
      s.Live roomId) :
    Inv { s with roots := s.roots.insert rootId root } := by
  have hget : ∀ (k : String) r, (s.roots.insert rootId root)[k]? = some r →
      k = rootId ∧ r = root ∨ s.roots[k]? = some r := by
    intro k r hk
    rw [Std.ExtTreeMap.getElem?_insert] at hk
    split at hk
    · next heq => exact .inl ⟨(compare_eq_iff_eq.mp heq).symm, (Option.some.inj hk).symm⟩
    · exact .inr hk
  refine ⟨h.one, h.ids, fun k r roomId hk hroom => ?_, fun k r roomId hk hactive hroom => ?_,
    fun d => (h.calls d).congr rfl rfl rfl⟩
  · rcases hget k r hk with ⟨rfl, rfl⟩ | hk
    · exact hheld roomId hroom
    · exact h.held k r roomId hk hroom
  · rcases hget k r hk with ⟨rfl, rfl⟩ | hk
    · exact hlive roomId hactive hroom
    · exact h.live k r roomId hk hactive hroom

/-! ### The registry -/

lemma bindRoom_ok {roots roots' : Roots} {rootId roomId : String} {now : ℤ} {r : ManagedRoot}
    (h : ManagedRootStore.bindRoom roots rootId roomId now = .ok (r, roots')) :
    ∃ root : ManagedRoot, roots' = roots.insert rootId { root with
      roomId := some roomId
      detachedRoomId := none
      roomBindingStatus := .active
      updatedUnixMs := now } := by
  unfold ManagedRootStore.bindRoom at h
  split_ifs at h
  obtain ⟨root, -, h⟩ := bind_eq_ok.mp h
  cases h
  exact ⟨root, rfl⟩

/-- A root is bound to a room of its own whose removal has not been replayed. -/
lemma Inv.bindRoom {rootId roomId : String} {now : ℤ} {r : ManagedRoot} {roots : Roots} (h : Inv s)
    (hknows : s.Knows roomId rootId) (hlive : s.Live roomId)
    (hs : ManagedRootStore.bindRoom s.roots rootId roomId now = .ok (r, roots)) :
    Inv { s with roots := roots } := by
  obtain ⟨root, rfl⟩ := bindRoom_ok hs
  refine h.setRoot (fun room hroom => ?_) fun room _ hroom => ?_
  · rcases hroom with hroom | hroom
    · cases hroom
      exact hknows
    · cases hroom
  · cases hroom
    exact hlive

lemma inv_bind {now : ℤ} (h : Inv s) (hcareful : s.Careful (.bind c now))
    (hs : s.bind c now = some t) : Inv t := by
  have hgood := h.calls c
  unfold State.bind at hs
  split at hs
  swap
  · cases hs
  next rootId roomId hcall =>
  cases hs
  rw [hcall] at hgood
  rw [Careful, hcall] at hcareful
  refine Inv.setCall ?_ trivial
  unfold changed
  split
  · next r roots hok => exact h.bindRoom hgood (hcareful (by rw [hok]; rfl)) hok
  · exact h

lemma inv_adopt {now : ℤ} (h : Inv s) (hcareful : s.Careful (.adopt c now))
    (hs : s.adopt c now = some t) : Inv t := by
  have hgood := h.calls c
  unfold adopt at hs
  split at hs
  swap
  · cases hs
  next rootId roomId hcall =>
  cases hs
  rw [hcall] at hgood
  rw [Careful, hcall] at hcareful
  refine Inv.setCall ?_ trivial
  unfold changed
  split
  · next r roots hok =>
    obtain ⟨found, hfound, hok⟩ := bind_eq_ok.mp hok
    cases found with
    | some root =>
      cases hok
      exact h
    | none =>
      have hbind : ManagedRootStore.bindRoom s.roots rootId roomId now = .ok (r, roots) := hok
      exact h.bindRoom hgood (hcareful hfound (by rw [hbind]; rfl)) hbind
  · exact h

/-- A room is known for one root. -/
lemma Inv.knows_unique {roomId rootId rootId' : String} (h : Inv s) (hx : s.Knows roomId rootId)
    (hy : s.Knows roomId rootId') : rootId = rootId' := by
  obtain ⟨x, hx, hxid, rfl⟩ := hx
  obtain ⟨y, hy, hyid, rfl⟩ := hy
  rw [List.inj_on_of_nodup_map h.ids hx hy (hxid.trans hyid.symm)]

/-- A removal that no root is bound to is done with. -/
lemma Inv.replayed {roomId : String} {removals : List String} (h : Inv s)
    (hremovals : s.removals = roomId :: removals)
    (hfree : ∀ (k : String) root, s.roots[k]? = some root → root.roomBindingStatus = .active →
      root.roomId ≠ some roomId) :
    Inv { s with removals := removals } := by
  refine ⟨h.one, h.ids, h.held, fun k root room hk hactive hroom => ?_, fun d =>
    (h.calls d).congr rfl rfl rfl⟩
  rcases h.live k root room hk hactive hroom with hmem | hlive
  · rw [hremovals] at hmem
    have hne : room ≠ roomId := fun heq => hfree k root hk hactive (heq ▸ hroom)
    exact .inl ((List.mem_cons.mp hmem).resolve_left hne)
  · exact .inr hlive

lemma holdsRoom_or {roomId : String} {root : ManagedRoot}
    (h : ManagedRootStore.holdsRoom roomId root = true) :
    root.roomId = some roomId ∨ root.detachedRoomId = some roomId :=
  (of_decide_eq_true h).imp_right (·.2)

/-- The root that held the room is detached, and there is no other. -/
lemma inv_replay {now : ℤ} (h : Inv s) (hs : s.replay now = some t) : Inv t := by
  unfold replay at hs
  split at hs
  · cases hs
  next roomId removals hremovals =>
  split at hs
  · next r roots hdetach =>
    cases hs
    obtain ⟨⟨k, root⟩, hfind, hroots⟩ := Option.map_eq_some_iff.mp hdetach
    cases hroots
    have hk : s.roots[k]? = some root :=
      Std.ExtTreeMap.mem_toList_iff_getElem?_eq_some.mp (List.mem_of_find?_eq_some hfind)
    have hholds : ManagedRootStore.holdsRoom roomId (k, root).2 = true :=
      List.find?_some (p := fun entry : String × ManagedRoot =>
        ManagedRootStore.holdsRoom roomId entry.2) hfind
    have hdetached : Inv { s with
        roots := s.roots.insert k (ManagedRootStore.detached root now) } := by
      refine h.setRoot (fun room hroom => h.held k root room hk ?_) fun _ hactive => by
        cases hactive
      rcases hroom with hroom | hroom
      · cases hroom
      · exact (Option.or_eq_some_iff.mp hroom).imp_right (·.2)
    refine hdetached.replayed hremovals fun k' root' hk' hactive hroom => ?_
    have hk' : (s.roots.insert k (ManagedRootStore.detached root now))[k']? = some root' := hk'
    rw [Std.ExtTreeMap.getElem?_insert] at hk'
    split at hk'
    · cases hk'
      cases hactive
    · next hne =>
      have hsame := h.knows_unique (h.held k root roomId hk (holdsRoom_or hholds))
        (h.held k' root' roomId hk' (.inl hroom))
      exact hne (compare_eq_iff_eq.mpr hsame)
  · next hdetach =>
    cases hs
    refine h.replayed hremovals fun k root hk _ hroom => ?_
    have hnone := List.find?_eq_none.mp (Option.map_eq_none_iff.mp hdetach) (k, root)
      (Std.ExtTreeMap.mem_toList_iff_getElem?_eq_some.mpr hk)
    exact hnone (decide_eq_true (.inl hroom))

/-! ### The calls and the server -/

lemma inv_register {rootId root displayName : String} {now : ℤ} (h : Inv s)
    (hs : s.register rootId root displayName now = some t) : Inv t := by
  unfold register at hs
  split at hs
  · next r roots hok =>
    cases hs
    obtain ⟨_, -, hok⟩ := bind_eq_ok.mp hok
    cases hok
    refine h.setRoot (fun _ hroom => ?_) fun _ hactive => by cases hactive
    rcases hroom with hroom | hroom <;> cases hroom
  · cases hs

lemma inv_ensureRoomForRoot {rootId : String} (h : Inv s)
    (hs : s.ensureRoomForRoot c rootId = some t) : Inv t := by
  have hgood := h.calls c
  unfold ensureRoomForRoot at hs
  split at hs
  swap
  · cases hs
  next hcall _ =>
  split_ifs at hs
  cases hs
  rw [hcall] at hgood
  exact h.setCall hgood

lemma inv_enter (h : Inv s) (hs : s.enter c = some t) : Inv t := by
  have hgood := h.calls c
  unfold enter at hs
  split at hs
  swap
  · cases hs
  next rootId hcall _ =>
  cases hs
  rw [hcall] at hgood
  have hlocked : Inv { s with roomSyncLock := some c } :=
    ⟨h.one, h.ids, h.held, h.live, fun d => (h.calls d).congr rfl rfl rfl⟩
  exact hlocked.setCall hgood

lemma inv_list {found : Option String} (h : Inv s) (hs : s.list c found = some t) : Inv t := by
  have hgood := h.calls c
  unfold list at hs
  split at hs
  · next rootId roomId _ =>
    split_ifs at hs with hroom
    cases hs
    exact (h.unlock c).setCall ⟨_, hroom, rfl, rfl⟩
  · next rootId hcall =>
    split_ifs at hs
    cases hs
    rw [hcall] at hgood
    refine ⟨h.one, h.ids, h.held, h.live, fun d => ?_⟩
    rcases eq_or_ne d c with rfl | hne
    · rw [calls_setCall]
      refine ⟨fun p hp hd => ?_, fun a ha hd => absurd hd (hgood.2 a ha)⟩
      rcases List.mem_append.mp hp with hp | hp
      · exact absurd hd (hgood.1 p hp)
      · cases List.mem_singleton.mp hp
        rfl
    · rw [calls_setCall_of_ne _ hne]
      refine (h.calls d).mono (fun _ _ => id) (fun p hp hd => ?_) fun _ ha _ => ha
      rcases List.mem_append.mp hp with hp | hp
      · exact hp
      · cases List.mem_singleton.mp hp
        exact absurd hd.symm hne
  · cases hs

lemma inv_created (h : Inv s) (hs : s.created c = some t) : Inv t := by
  have hgood := h.calls c
  unfold created at hs
  split at hs
  swap
  · cases hs
  next rootId answer hcall hfind =>
  cases hs
  rw [hcall] at hgood
  have hof : answer.1 = c := by simpa using List.find?_some hfind
  exact (h.unlock c).setCall (hgood.2 answer (List.mem_of_find?_eq_some hfind) hof)

lemma inv_fail (h : Inv s) (hs : s.fail c = some t) : Inv t := by
  unfold fail at hs
  split at hs
  all_goals cases hs
  all_goals exact (h.unlock c).setCall trivial

lemma inv_rootIdForRoom {roomId : String} (h : Inv s)
    (hs : s.rootIdForRoom c roomId = some t) : Inv t := by
  unfold rootIdForRoom at hs
  split at hs
  swap
  · cases hs
  next room _ hfind =>
  cases hs
  have hid : room.id = roomId := by
    have hroom := List.find?_some hfind
    rw [Bool.and_eq_true] at hroom
    exact of_decide_eq_true hroom.1
  exact h.setCall ⟨room, List.mem_of_find?_eq_some hfind, hid, rfl⟩

/-- The new room is the only one of its root. -/
lemma inv_create {roomId : String} (h : Inv s) (hcareful : s.Careful (.create c roomId))
    (hs : s.create c roomId = some t) : Inv t := by
  unfold create at hs
  split at hs
  swap
  · cases hs
  next post hfind =>
  split_ifs at hs with hnew
  cases hs
  have hpost := List.mem_of_find?_eq_some hfind
  have hof : post.1 = c := by simpa using List.find?_some hfind
  have hfree := hcareful post hpost hof
  have hknows : ∀ room rootId, s.Knows room rootId → ∃ x : ServerRoom,
      x ∈ s.rooms ++ [⟨roomId, post.2, true⟩] ∧ x.id = room ∧ x.rootAlias = rootId := by
    rintro room rootId ⟨x, hx, hroom⟩
    exact ⟨x, List.mem_append_left _ hx, hroom⟩
  refine ⟨fun x hx y hy hxa hya heq => ?_, ?_, fun k root room hk hroom =>
    hknows room k (h.held k root room hk hroom), fun k root room hk hactive hroom => ?_,
    fun d => ?_⟩
  · rcases List.mem_append.mp hx with hx | hx <;> rcases List.mem_append.mp hy with hy | hy
    · exact h.one x hx y hy hxa hya heq
    · cases List.mem_singleton.mp hy
      exact absurd heq (hfree x hx hxa)
    · cases List.mem_singleton.mp hx
      exact absurd heq.symm (hfree y hy hya)
    · rw [List.mem_singleton.mp hx, List.mem_singleton.mp hy]
  · rw [List.map_append, List.nodup_append]
    refine ⟨h.ids, List.nodup_singleton _, fun a ha b hb => ?_⟩
    rintro rfl
    rw [List.mem_singleton.mp hb] at ha
    exact hnew ha
  · rcases h.live k root room hk hactive hroom with hmem | ⟨x, hx, hlive⟩
    · exact .inl hmem
    · exact .inr ⟨x, List.mem_append_left _ hx, hlive⟩
  · have hgood := h.calls d
    rcases eq_or_ne d c with rfl | hne
    · cases hcall : s.calls d with
      | fresh => exact absurd hof (by rw [hcall] at hgood; exact hgood.1 post hpost)
      | entering rootId => exact absurd hof (by rw [hcall] at hgood; exact hgood.1 post hpost)
      | listing rootId => exact absurd hof (by rw [hcall] at hgood; exact hgood.1 post hpost)
      | posting rootId =>
        rw [hcall] at hgood
        refine ⟨fun p hp => hgood.1 p (List.mem_of_mem_erase hp), fun a ha hd => ?_⟩
        rcases List.mem_append.mp ha with ha | ha
        · exact hknows _ _ (hgood.2 a ha hd)
        · cases List.mem_singleton.mp ha
          exact ⟨_, List.mem_append_right _ List.mem_cons_self, rfl, hgood.1 post hpost hof⟩
      | binding rootId room =>
        rw [hcall] at hgood
        exact hknows _ _ hgood
      | adopting rootId room =>
        rw [hcall] at hgood
        exact hknows _ _ hgood
      | done => trivial
    · refine hgood.mono hknows (fun p hp _ => List.mem_of_mem_erase hp) fun a ha hd => ?_
      rcases List.mem_append.mp ha with ha | ha
      · exact ha
      · cases List.mem_singleton.mp ha
        exact absurd hd.symm hne

/-- The room with its removal. -/
def deactivated (roomId : String) (x : ServerRoom) : ServerRoom :=
  if x.id = roomId then { x with active := false } else x

lemma deactivated_id (roomId : String) (x : ServerRoom) : (deactivated roomId x).id = x.id := by
  unfold deactivated
  split <;> rfl

lemma deactivated_rootAlias (roomId : String) (x : ServerRoom) :
    (deactivated roomId x).rootAlias = x.rootAlias := by
  unfold deactivated
  split <;> rfl

lemma deactivated_of_active {roomId : String} {x : ServerRoom}
    (h : (deactivated roomId x).active = true) : deactivated roomId x = x := by
  unfold deactivated at h ⊢
  split at h
  · cases h
  · next hne => rw [if_neg hne]

/-- The removal of the room is to be replayed from now on. -/
lemma inv_removeRoom {roomId : String} (h : Inv s) (hs : s.removeRoom roomId = some t) :
    Inv t := by
  unfold removeRoom at hs
  split_ifs at hs
  cases hs
  change Inv { s with
    rooms := s.rooms.map (deactivated roomId)
    removals := s.removals ++ [roomId] }
  have hknows : ∀ room rootId, s.Knows room rootId → ∃ x ∈ s.rooms.map (deactivated roomId),
      x.id = room ∧ x.rootAlias = rootId := by
    rintro room rootId ⟨x, hx, hid, halias⟩
    exact ⟨_, List.mem_map_of_mem hx, (deactivated_id ..).trans hid,
      (deactivated_rootAlias ..).trans halias⟩
  refine ⟨fun x' hx' y' hy' hxa hya heq => ?_, ?_, fun k root room hk hroom =>
    hknows room k (h.held k root room hk hroom), fun k root room hk hactive hroom => ?_,
    fun d => (h.calls d).mono hknows (fun _ hp _ => hp) fun _ ha _ => ha⟩
  · obtain ⟨x, hx, rfl⟩ := List.mem_map.mp hx'
    obtain ⟨y, hy, rfl⟩ := List.mem_map.mp hy'
    rw [deactivated_of_active hxa, deactivated_of_active hya] at *
    exact h.one x hx y hy hxa hya heq
  · rw [List.map_map, show (·.id) ∘ deactivated roomId = (·.id) from funext (deactivated_id _)]
    exact h.ids
  · rcases h.live k root room hk hactive hroom with hmem | ⟨x, hx, hid, hlive⟩
    · exact .inl (List.mem_append_left _ hmem)
    · by_cases hroomId : room = roomId
      · exact .inl (List.mem_append_right _ (List.mem_singleton.mpr hroomId))
      · refine .inr ⟨_, List.mem_map_of_mem hx, (deactivated_id ..).trans hid, ?_⟩
        rw [deactivated, if_neg (by rw [hid]; exact hroomId)]
        exact hlive

/-! ### Runs -/

theorem inv_step {e : Event} (h : Inv s) (hcareful : s.Careful e) (hs : s.step e = some t) :
    Inv t := by
  cases e with
  | register rootId root displayName now => exact inv_register h hs
  | ensureRoomForRoot c rootId => exact inv_ensureRoomForRoot h hs
  | enter c => exact inv_enter h hs
  | list c found => exact inv_list h hs
  | create c roomId => exact inv_create h hcareful hs
  | created c => exact inv_created h hs
  | fail c => exact inv_fail h hs
  | bind c now => exact inv_bind h hcareful hs
  | rootIdForRoom c roomId => exact inv_rootIdForRoom h hs
  | adopt c now => exact inv_adopt h hcareful hs
  | removeRoom roomId => exact inv_removeRoom h hs
  | replay now => exact inv_replay h hs

/-- A room is created for a root and removed, and the root is detached. -/
def createdAndRemoved : List Event :=
  [.register "r" "/r" "R" 0, .ensureRoomForRoot 0 "r", .enter 0, .list 0 none, .create 0 "a",
    .created 0, .bind 0 1, .removeRoom "a", .replay 2]

/-- A second request for the room is sent while the first, given up, is still on its way. -/
def givenUp : List Event :=
  [.register "r" "/r" "R" 0, .ensureRoomForRoot 0 "r", .enter 0, .list 0 none, .fail 0,
    .ensureRoomForRoot 1 "r", .enter 1, .list 1 none, .create 0 "a", .create 1 "b"]

end State

end MouseKeeper.Desktop.RoomPairing
