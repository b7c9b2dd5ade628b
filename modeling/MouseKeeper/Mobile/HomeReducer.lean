import MouseKeeper.Mobile.HomeUpdates

/-!
What the home screen keeps when updates come late, or twice.

The ids stay distinct, an update changes the entry that it names and no other, and the second time
it changes nothing. A room that is created once more is shown without what was learnt of it since.
-/

namespace MouseKeeper.Mobile.HomeUpdates

open Contracts (Fields Json)
open Machine (run Meets)

/-! ### What must hold -/

def ids (items : List Item) : List (Option Json) := items.map (· "id")

structure HomeData.Distinct (d : HomeData) : Prop where
  devices : (ids d.devices).Nodup
  rooms : (ids d.rooms).Nodup

/-- A device or a room. -/
inductive Subject
  | device (id : String)
  | room (id : String)
  deriving DecidableEq

def HomeData.entry (d : HomeData) : Subject → Option Item
  | .device id => d.devices.find? (·.is "id" id)
  | .room id => d.rooms.find? (·.is "id" id)

/-- What an update other than a creation tells of a device or a room. -/
inductive Learnt
  | presence (deviceId : String)
  | count (roomId : String)
  | status (roomId : String)
  | cleanliness (roomId : String)
  deriving DecidableEq

def Learnt.subject : Learnt → Subject
  | .presence id => .device id
  | .count id | .status id | .cleanliness id => .room id

def Learnt.keys : Learnt → List String
  | .presence _ => ["presence"]
  | .count _ => ["pendingProposalCount"]
  | .status _ => ["latestExecutionStatus"]
  | .cleanliness _ =>
    ["cleanlinessScore", "cleanlinessFormulaVersion", "cleanlinessCalculatedAt"]

/-- A message, with the devices and rooms that are active when it comes. -/
structure Delivery where
  event : String
  data : Json
  activeDeviceIds : List String
  activeRoomIds : List String

/-- The screen, what has been paired or created by a message, and what was learnt of it since. -/
structure World where
  data : HomeData
  created : List Subject
  learnt : List Learnt

def World.start (data : HomeData) : World := ⟨data, [], []⟩

/-- What the update pairs or creates. -/
def RealtimeHomeUpdate.creates (u : RealtimeHomeUpdate) : Option Subject :=
  match u.kind with
  | .devicePaired => u.deviceId.map .device
  | .roomCreated => u.roomId.map .room
  | _ => none

variable (tryParse : TryParse)

/-- What is learnt from the update, if it is applied. -/
def RealtimeHomeUpdate.tells (u : RealtimeHomeUpdate) (d : HomeData) : Option Learnt :=
  match u.kind with
  | .presence => if u.presence.isSome then u.deviceId.map .presence else none
  | .proposalCreated | .decisionCreated => u.roomId.map .count
  | .executionStatus => if u.executionStatus.isSome then u.roomId.map .status else none
  | .roomSnapshotUpdated =>
    match u.roomId, u.roomSnapshot with
    | some id, some snapshot =>
      match d.entry (.room id) with
      | some room =>
        if _snapshotIsNewer tryParse (room "cleanlinessCalculatedAt") (snapshot "calculatedAt") then
          some (.cleanliness id)
        else none
      | none => none
    | _, _ => none
  | _ => none

def Delivery.isActive (e : Delivery) : Subject → Bool
  | .device id => id ∈ e.activeDeviceIds
  | .room id => id ∈ e.activeRoomIds

/-- What was learnt of an entry that is there no longer does not count. -/
def World.remember (w : World) (e : Delivery) (u : RealtimeHomeUpdate) (next : HomeData) : World :=
  let told := (u.tells tryParse w.data).toList.filter fun l =>
    e.isActive l.subject ∧ l.subject ∈ w.created
  { data := next
    created := u.creates.toList ++ w.created
    learnt := (told ++ w.learnt).filter fun l => (next.entry l.subject).isSome }

/-- A message that leads to no screen leaves the one there is. -/
def step (w : World) (e : Delivery) : Option World :=
  match realtimeHomeUpdateFor e.event e.data with
  | none => some w
  | some u =>
    match reduceHomeDataForRealtimeUpdate tryParse w.data u e.activeDeviceIds e.activeRoomIds with
    | none => some w
    | some next => some (w.remember tryParse e u next)

/-- The device is not the one that the update names. -/
def otherDevice (u : RealtimeHomeUpdate) (device : Item) : Bool := !u.deviceId.any (device.is "id")

/-- The room is not the one that the update names, and is not in a device that it removes. -/
def otherRoom (u : RealtimeHomeUpdate) (room : Item) : Bool :=
  !u.roomId.any (room.is "id") &&
    !(u.kind = .deviceRemoved && u.deviceId.any (room.is "desktopDeviceId"))

/-- What holds between the screens before and after an update. -/
structure Sound (w : World) (e : Delivery) (u : RealtimeHomeUpdate) (next : HomeData) : Prop where
  distinct : next.Distinct
  devices : ∀ device ∈ next.devices, device "id" ∈ ids w.data.devices ∨
    ∃ id ∈ e.activeDeviceIds, device "id" = some (.str id)
  rooms : ∀ room ∈ next.rooms, room "id" ∈ ids w.data.rooms ∨
    ∃ id ∈ e.activeRoomIds, room "id" = some (.str id)
  otherDevices : next.devices.filter (otherDevice u) = w.data.devices.filter (otherDevice u)
  otherRooms : next.rooms.filter (otherRoom u) = w.data.rooms.filter (otherRoom u)
  rest : next = { w.data with devices := next.devices, rooms := next.rooms }
  idempotent : reduceHomeDataForRealtimeUpdate tryParse next u e.activeDeviceIds e.activeRoomIds =
    some next
  notEarlier : ∀ id before after, w.data.entry (.room id) = some before →
    next.entry (.room id) = some after → ∀ t t',
      timeOf tryParse (before "cleanlinessCalculatedAt") = some t →
      timeOf tryParse (after "cleanlinessCalculatedAt") = some t' → t ≤ t'
  /-- A creation that comes again erases nothing. -/
  kept : ∀ s, u.creates = some s → s ∈ w.created → ∀ l ∈ w.learnt, l.subject = s →
    ∀ key ∈ l.keys, ∀ before after, w.data.entry s = some before → next.entry s = some after →
      after key = before key

/-- The message is answered soundly. -/
def AnsweredSoundly (w : World) (e : Delivery) : Prop :=
  ∀ u, realtimeHomeUpdateFor e.event e.data = some u → ∀ next,
    reduceHomeDataForRealtimeUpdate tryParse w.data u e.activeDeviceIds e.activeRoomIds =
      some next → Sound tryParse w e u next

/-- The room that is created is not shown yet; or what is carried of it is calculated no earlier
and, if the creation comes again, agrees with all that was learnt since. -/
def Agrees (w : World) (e : Delivery) : Prop :=
  ∀ u, realtimeHomeUpdateFor e.event e.data = some u → u.kind = .roomCreated →
    ∀ id ∈ u.roomId, ∀ room ∈ u.room, id ∈ e.activeRoomIds → ∀ before,
      w.data.entry (.room id) = some before →
      (∀ t t', timeOf tryParse (before "cleanlinessCalculatedAt") = some t →
        timeOf tryParse (nextRoom room "cleanlinessCalculatedAt") = some t' → t ≤ t') ∧
      (.room id ∈ w.created → ∀ l ∈ w.learnt, l.subject = .room id →
        ∀ key ∈ l.keys, nextRoom room key = before key)

/-! ### Entries -/

lemma is_iff {item : Item} {key text : String} :
    item.is key text = true ↔ item key = some (.str text) := by
  unfold Item.is
  split
  · next s h => simp [h]
  · next h => simpa using fun h' => h text h'

variable {tryParse} {items : List Item} {id : String} {x y : Item}

lemma eq_of_id (hn : (ids items).Nodup) (hx : x ∈ items) (hy : y ∈ items) (h : x "id" = y "id") :
    x = y := List.inj_on_of_nodup_map hn hx hy h

lemma find_iff (hn : (ids items).Nodup) :
    items.find? (·.is "id" id) = some x ↔ x ∈ items ∧ x "id" = some (.str id) := by
  constructor
  · exact fun h => ⟨List.mem_of_find?_eq_some h, is_iff.mp (by simpa using List.find?_some h)⟩
  · rintro ⟨hx, hid⟩
    have hsome : (items.find? (·.is "id" id)).isSome = true :=
      List.find?_isSome.mpr ⟨x, hx, is_iff.mpr hid⟩
    obtain ⟨y, hy⟩ := Option.isSome_iff_exists.mp hsome
    have hyid := is_iff.mp (by simpa using List.find?_some hy)
    rw [hy, eq_of_id hn (List.mem_of_find?_eq_some hy) hx (hyid.trans hid.symm)]

/-! ### Edits of a list -/

/-- The list is changed at the entry that is named, which may be a new one, and once only. -/
structure Edits (other : Item → Bool) (active : List String) (g : List Item → List Item) :
    Prop where
  nodup : ∀ items, (ids items).Nodup → (ids (g items)).Nodup
  new : ∀ items, ∀ x ∈ g items, x "id" ∈ ids items ∨ ∃ id ∈ active, x "id" = some (.str id)
  others : ∀ items, (g items).filter other = items.filter other
  idempotent : ∀ items, g (g items) = g items

variable {other : Item → Bool} {active : List String} {f : Item → Item} {new : Item}

lemma mem_ids (h : x ∈ items) : x "id" ∈ ids items := List.mem_map_of_mem h

lemma edits_id : Edits other active fun items => items :=
  ⟨fun _ h => h, fun _ _ hx => .inl (mem_ids hx), fun _ => rfl, fun _ => rfl⟩

lemma edits_filter {p : Item → Bool} (hother : ∀ x, other x = true → p x = true) :
    Edits other active (List.filter p) where
  nodup _ h := h.sublist (List.filter_sublist.map _)
  new _ _ hx := .inl (mem_ids (List.mem_of_mem_filter hx))
  others items := by
    rw [List.filter_filter]
    refine List.filter_congr fun x _ => ?_
    cases ho : other x with
    | true => simp [hother x ho]
    | false => rfl
  idempotent items := by
    rw [List.filter_filter]
    simp

lemma ids_patch (hid : ∀ x, x.is "id" id = true → f x "id" = x "id") (items : List Item) :
    ids (patch id f items) = ids items := by
  rw [ids, patch, List.map_map]
  refine List.map_congr_left fun x _ => ?_
  rw [Function.comp_apply]
  split_ifs with hx
  · exact hid x hx
  · rfl

lemma is_patched (hid : ∀ x, x.is "id" id = true → f x "id" = x "id") (hx : x.is "id" id = true) :
    (f x).is "id" id = true := is_iff.mpr ((hid x hx).trans (is_iff.mp hx))

lemma patch_patch (hid : ∀ x, x.is "id" id = true → f x "id" = x "id")
    (hidem : ∀ x, f (f x) = f x) (items : List Item) :
    patch id f (patch id f items) = patch id f items := by
  rw [patch, patch, List.map_map]
  refine List.map_congr_left fun x _ => ?_
  rw [Function.comp_apply]
  by_cases hx : x.is "id" id = true
  · rw [if_pos hx, if_pos (is_patched hid hx), hidem]
  · rw [if_neg hx, if_neg hx]

lemma filter_patch (hid : ∀ x, x.is "id" id = true → f x "id" = x "id")
    (hother : ∀ x, x.is "id" id = true → other x = false) (items : List Item) :
    (patch id f items).filter other = items.filter other := by
  induction items with
  | nil => rfl
  | cons x items ih =>
    change (_ :: patch id f items).filter other = _
    by_cases hx : x.is "id" id = true
    · simp [hx, hother x hx, hother _ (is_patched hid hx), ih]
    · simp [hx, List.filter_cons, ih]

lemma edits_patch (hid : ∀ x, x.is "id" id = true → f x "id" = x "id")
    (hidem : ∀ x, f (f x) = f x) (hother : ∀ x, x.is "id" id = true → other x = false) :
    Edits other active (patch id f) where
  nodup items h := (ids_patch hid items).symm ▸ h
  new items _ hx := .inl (ids_patch hid items ▸ mem_ids hx)
  others := filter_patch hid hother
  idempotent := patch_patch hid hidem

lemma edits_upsert (hid : ∀ x, x.is "id" id = true → f x "id" = x "id")
    (hidem : ∀ x, f (f x) = f x) (hother : ∀ x, x.is "id" id = true → other x = false)
    (hnew : new "id" = some (.str id)) (hfix : f new = new) (hactive : id ∈ active) :
    Edits other active (upsert id f new) := by
  have hpatch : Edits other active (patch id f) := edits_patch hid hidem hother
  have hnew' : new.is "id" id = true := is_iff.mpr hnew
  refine ⟨fun items h => ?_, fun items x hx => ?_, fun items => ?_, fun items => ?_⟩
  · unfold upsert
    split_ifs with hany
    · exact hpatch.nodup items h
    · rw [ids, List.map_append]
      refine h.append (List.nodup_singleton _) ?_
      rintro k hk hk'
      rw [List.map_singleton, List.mem_singleton] at hk'
      obtain ⟨x, hx, hxk⟩ := List.mem_map.mp hk
      exact hany (List.any_eq_true.mpr ⟨x, hx, is_iff.mpr (hxk.trans (hk'.trans hnew))⟩)
  · unfold upsert at hx
    split_ifs at hx with hany
    · exact hpatch.new items x hx
    · rcases List.mem_append.mp hx with hx | hx
      · exact .inl (mem_ids hx)
      · rw [List.mem_singleton.mp hx]
        exact .inr ⟨id, hactive, hnew⟩
  · unfold upsert
    split_ifs with hany
    · exact hpatch.others items
    · rw [List.filter_append, List.filter_cons, hother new hnew']
      exact List.append_nil _
  · unfold upsert
    by_cases hany : (items.any (·.is "id" id)) = true
    · obtain ⟨x, hx, hxid⟩ := List.any_eq_true.mp hany
      have hany' : ((patch id f items).any (·.is "id" id)) = true := by
        refine List.any_eq_true.mpr ⟨f x, List.mem_map.mpr ⟨x, hx, if_pos hxid⟩, ?_⟩
        exact is_patched hid hxid
      rw [if_pos hany, if_pos hany', hpatch.idempotent]
    · have hany' : ((items ++ [new]).any (·.is "id" id)) = true := by simp [hnew']
      rw [if_neg hany, if_pos hany', patch, List.map_append, List.map_singleton, if_pos hnew', hfix]
      congr 1
      refine (List.map_congr_left fun y hy => ?_).trans (List.map_id _)
      exact if_neg fun hid => hany (List.any_eq_true.mpr ⟨y, hy, hid⟩)

/-! ### What is made of an entry -/

@[simp] lemma put_self (x : Item) (key : String) (v : Json) : x.put key v key = some v := if_pos rfl

lemma put_of_ne {key k : String} (h : k ≠ key) (x : Item) (v : Json) : x.put key v k = x k :=
  if_neg h

lemma put_put (x : Item) (key : String) (v : Json) : (x.put key v).put key v = x.put key v := by
  funext k
  rcases eq_or_ne k key with rfl | h
  · rw [put_self, put_self]
  · rw [put_of_ne h]

lemma merge_merge (x y : Item) : (x.merge y).merge y = x.merge y := by
  funext k
  rw [Item.merge, Item.merge]
  cases y k with
  | none => rfl
  | some v => rfl

lemma orElse_ne_null {value : Option Json} {v : Json} (h : v ≠ .null) : orElse value v ≠ .null := by
  unfold orElse
  split
  · exact h
  · exact h
  · next w hw => exact hw

lemma orElse_some {v : Json} (h : v ≠ .null) (w : Json) : orElse (some v) w = v := by
  cases v with
  | null => exact absurd rfl h
  | _ => rfl

lemma setText_setText (key text : String) (x : Item) :
    setText key text (setText key text x) = setText key text x := by
  rw [setText, setText]
  split_ifs
  · rfl
  · rfl
  · exact put_put x key _

lemma setCount_setCount (count : ℤ) (x : Item) : setCount count (setCount count x) = setCount count x := by
  rw [setCount, setCount]
  split_ifs
  · rfl
  · rfl
  · exact put_put x _ _

lemma timeOf_orElse (value : Option Json) :
    timeOf tryParse (some (orElse value .null)) = timeOf tryParse value := by
  unfold orElse
  split
  · rfl
  · rfl
  · rfl

lemma snapshotIsNewer_iff {value next : Option Json} :
    _snapshotIsNewer tryParse value next = true ↔ ∃ t, timeOf tryParse next = some t ∧
      ∀ c, timeOf tryParse value = some c → c < t := by
  unfold _snapshotIsNewer
  cases timeOf tryParse next with
  | none => simp
  | some t =>
    cases timeOf tryParse value with
    | none => simp
    | some c => simp

/-- The time of a snapshot that has been taken over. -/
lemma calculatedAt_setCleanliness {snapshot : Item}
    (h : _snapshotIsNewer tryParse (x "cleanlinessCalculatedAt") (snapshot "calculatedAt") = true) :
    timeOf tryParse (setCleanliness tryParse snapshot x "cleanlinessCalculatedAt") =
      timeOf tryParse (snapshot "calculatedAt") := by
  rw [setCleanliness, if_pos h, put_self, timeOf_orElse]

lemma setCleanliness_setCleanliness (snapshot x : Item) :
    setCleanliness tryParse snapshot (setCleanliness tryParse snapshot x) =
      setCleanliness tryParse snapshot x := by
  by_cases h : _snapshotIsNewer tryParse (x "cleanlinessCalculatedAt") (snapshot "calculatedAt") = true
  · refine if_neg fun h' => ?_
    obtain ⟨t, ht, hlt⟩ := snapshotIsNewer_iff.mp h'
    exact Int.lt_irrefl t (hlt t ((calculatedAt_setCleanliness h).trans ht))
  · have hsame : setCleanliness tryParse snapshot x = x := if_neg h
    rw [hsame, hsame]

lemma setCleanliness_of_ne {snapshot : Item} {key : String} (h : key ∉ (Learnt.cleanliness id).keys) :
    setCleanliness tryParse snapshot x key = x key := by
  simp only [Learnt.keys, List.mem_cons, List.not_mem_nil, or_false, not_or] at h
  unfold setCleanliness
  split_ifs
  · rw [put_of_ne h.2.2, put_of_ne h.2.1, put_of_ne h.1]
  · rfl

/-- A presence that is known stays, and one that is not known is that of the message. -/
lemma presence_pairDevice (device existing : Item) :
    pairDevice device existing "presence" =
      some (orElse (existing "presence") (orElse (device "presence") (.str "OFFLINE"))) := by
  have hne : orElse (device "presence") (.str "OFFLINE") ≠ .null := orElse_ne_null nofun
  rw [pairDevice, put_self, nextDevice, put_self, orElse_some hne]

lemma pairDevice_of_ne (device existing : Item) {key : String} (h : key ≠ "presence") :
    pairDevice device existing key = (device key).or (existing key) := by
  rw [pairDevice, put_of_ne h, Item.merge, nextDevice, put_of_ne h]

lemma pairDevice_pairDevice (device existing : Item) :
    pairDevice device (pairDevice device existing) = pairDevice device existing := by
  funext key
  rcases eq_or_ne key "presence" with rfl | h
  · have hne : orElse (existing "presence") (orElse (device "presence") (.str "OFFLINE")) ≠ .null :=
      orElse_ne_null (orElse_ne_null nofun)
    rw [presence_pairDevice, presence_pairDevice, orElse_some hne]
  · rw [pairDevice_of_ne _ _ h, pairDevice_of_ne _ _ h]
    cases device key with
    | none => rfl
    | some v => rfl

lemma pairDevice_nextDevice (device : Item) :
    pairDevice device (nextDevice device) = nextDevice device := by
  funext key
  rcases eq_or_ne key "presence" with rfl | h
  · have hne : orElse (device "presence") (.str "OFFLINE") ≠ .null := orElse_ne_null nofun
    rw [presence_pairDevice, nextDevice, put_self, orElse_some hne]
  · rw [pairDevice_of_ne _ _ h, nextDevice, put_of_ne h]
    cases device key with
    | none => rfl
    | some v => rfl

lemma merge_self (x : Item) : x.merge x = x := by
  funext key
  rw [Item.merge]
  cases x key with
  | none => rfl
  | some v => rfl

/-- What a creation says of every field that can be learnt. -/
lemma nextRoom_isSome (room : Item) {l : Learnt} (h : l.subject = .room id) {key : String}
    (hkey : key ∈ l.keys) : (nextRoom room key).isSome = true := by
  rw [nextRoom, Item.merge]
  cases room key with
  | some v => rfl
  | none =>
    cases l with
    | presence => cases h
    | count => simp [Learnt.keys] at hkey; subst hkey; rfl
    | status => simp [Learnt.keys] at hkey; subst hkey; rfl
    | cleanliness =>
      simp only [Learnt.keys, List.mem_cons, List.not_mem_nil, or_false] at hkey
      rcases hkey with rfl | rfl | rfl <;> rfl

lemma merge_nextRoom (room existing : Item) {l : Learnt} (h : l.subject = .room id) {key : String}
    (hkey : key ∈ l.keys) : existing.merge (nextRoom room) key = nextRoom room key := by
  rw [Item.merge]
  obtain ⟨v, hv⟩ := Option.isSome_iff_exists.mp (nextRoom_isSome room h hkey)
  rw [hv]
  rfl

/-! ### Messages -/

/-- What is carried of a device or a room has the id that is named. -/
structure RealtimeHomeUpdate.Valid (u : RealtimeHomeUpdate) : Prop where
  device : ∀ id, u.deviceId = some id → ∀ device, u.device = some device →
    device "id" = some (.str id)
  room : ∀ id, u.roomId = some id → ∀ room, u.room = some room → room "id" = some (.str id)

/-- Nothing is carried. -/
lemma valid_of_none {u : RealtimeHomeUpdate} (hd : u.device = none) (hr : u.room = none) :
    u.Valid where
  device _ _ _ h := absurd (hd.symm.trans h) (Option.some_ne_none _).symm
  room _ _ _ h := absurd (hr.symm.trans h) (Option.some_ne_none _).symm

lemma valid_some {u : RealtimeHomeUpdate} (h : u.Valid) : ∀ u' ∈ some u, u'.Valid :=
  fun _ hu => Option.some.inj hu ▸ h

lemma valid_none : ∀ u ∈ (none : Option RealtimeHomeUpdate), u.Valid :=
  fun u hu => absurd hu (Option.some_ne_none u).symm

lemma valid_deviceUpdate {deviceId : Option String} {payload : Item} :
    (deviceUpdate deviceId payload).Valid := by
  unfold deviceUpdate
  split
  · split_ifs with h
    · refine ⟨fun id hid device hd => ?_, fun _ _ _ hr => absurd hr (Option.some_ne_none _).symm⟩
      have hall := h.1
      rw [show deviceId = some id from hid] at hall
      exact Option.some.inj hd ▸ is_iff.mp hall
    · exact valid_of_none rfl rfl
  · exact valid_of_none rfl rfl

lemma valid_roomUpdate {roomId : Option String} {payload : Item} :
    (roomUpdate roomId payload).Valid := by
  unfold roomUpdate
  split
  · split_ifs with h
    · refine ⟨fun _ _ _ hd => absurd hd (Option.some_ne_none _).symm, fun id hid room hr => ?_⟩
      have hall := h.1
      rw [show roomId = some id from hid] at hall
      exact Option.some.inj hr ▸ is_iff.mp hall
    · exact valid_of_none rfl rfl
  · exact valid_of_none rfl rfl

lemma valid_presenceUpdate {deviceId : Option String} {payload : Item} :
    ∀ u ∈ presenceUpdate deviceId payload, u.Valid := by
  unfold presenceUpdate
  split
  · split_ifs
    · exact valid_some (valid_of_none rfl rfl)
    · exact valid_none
  · exact valid_none

lemma valid_proposalUpdate {kind : RealtimeHomeUpdateKind} {roomId proposalId : Option String}
    {status : Json} {count : Option ℤ} : (proposalUpdate kind roomId proposalId status count).Valid := by
  unfold proposalUpdate
  split_ifs
  · exact valid_of_none rfl rfl
  · exact valid_of_none rfl rfl

lemma valid_snapshotUpdate {roomId snapshotId : Option String} {payload : Item} :
    (snapshotUpdate roomId snapshotId payload).Valid := by
  unfold snapshotUpdate
  split
  · exact valid_of_none rfl rfl
  · exact valid_of_none rfl rfl

lemma valid_commandUpdate {roomId commandId : Option String} {payload : Item} :
    ∀ u ∈ commandUpdate roomId commandId payload, u.Valid := by
  unfold commandUpdate
  split_ifs
  · exact valid_some (valid_of_none rfl rfl)
  · exact valid_none

lemma valid_executionUpdate {roomId : Option String} {payload : Item} :
    (executionUpdate roomId payload).Valid := by
  unfold executionUpdate
  split
  · exact valid_of_none rfl rfl
  · exact valid_of_none rfl rfl

lemma valid_ite {c : Prop} [Decidable c] {a b : Option RealtimeHomeUpdate}
    (ha : ∀ u ∈ a, u.Valid) (hb : ∀ u ∈ b, u.Valid) : ∀ u ∈ (if c then a else b), u.Valid := by
  split_ifs
  · exact ha
  · exact hb

lemma valid_of_parse {event : String} {data : Json} :
    ∀ u ∈ realtimeHomeUpdateFor event data, u.Valid := by
  cases data with
  | obj fields =>
    have hrefresh : refreshSummary.Valid := valid_of_none rfl rfl
    refine valid_ite valid_presenceUpdate (valid_ite (valid_some valid_deviceUpdate) ?_)
    refine valid_ite (valid_some (valid_of_none rfl rfl)) ?_
    refine valid_ite (valid_some valid_roomUpdate) ?_
    refine valid_ite (valid_some (valid_of_none rfl rfl)) ?_
    refine valid_ite (valid_some valid_proposalUpdate) (valid_ite (valid_some valid_proposalUpdate) ?_)
    refine valid_ite (valid_some valid_snapshotUpdate) (valid_ite valid_commandUpdate ?_)
    refine valid_ite (valid_some valid_executionUpdate) (valid_ite (valid_some hrefresh) ?_)
    exact valid_ite valid_none (valid_ite (valid_some hrefresh) valid_none)
  | _ => exact valid_none

/-! ### Entries before and after -/

/-- How an entry that is there before and after is changed. -/
def Becomes (R : Item → Item → Prop) (g : List Item → List Item) : Prop :=
  ∀ items, (ids items).Nodup → ∀ x ∈ items, ∀ y ∈ g items, x "id" = y "id" → R x y

variable {R : Item → Item → Prop}

lemma becomes_of_subset {g : List Item → List Item} (hR : ∀ x, R x x)
    (h : ∀ items, ∀ y ∈ g items, y ∈ items) : Becomes R g := by
  intro items hn x hx y hy hxy
  rw [eq_of_id hn hx (h items y hy) hxy]
  exact hR y

lemma becomes_patch (hid : ∀ x, x.is "id" id = true → f x "id" = x "id") (hR : ∀ x, R x x)
    (hf : ∀ x, x.is "id" id = true → R x (f x)) : Becomes R (patch id f) := by
  intro items hn x hx y hy hxy
  obtain ⟨z, hz, rfl⟩ := List.mem_map.mp hy
  by_cases his : z.is "id" id = true
  · rw [if_pos his] at hxy ⊢
    rw [eq_of_id hn hx hz (hxy.trans (hid z his))]
    exact hf z his
  · rw [if_neg his] at hxy ⊢
    rw [eq_of_id hn hx hz hxy]
    exact hR z

lemma becomes_upsert (hid : ∀ x, x.is "id" id = true → f x "id" = x "id")
    (hnew : new "id" = some (.str id)) (hR : ∀ x, R x x)
    (hf : ∀ x, x.is "id" id = true → R x (f x)) : Becomes R (upsert id f new) := by
  intro items hn x hx y hy hxy
  unfold upsert at hy
  split_ifs at hy with hany
  · exact becomes_patch hid hR hf items hn x hx y hy hxy
  · rcases List.mem_append.mp hy with hy | hy
    · rw [eq_of_id hn hx hy hxy]
      exact hR y
    · rw [List.mem_singleton.mp hy, hnew] at hxy
      exact absurd (List.any_eq_true.mpr ⟨x, hx, is_iff.mpr hxy⟩) hany

inductive DeviceBecomes (u : RealtimeHomeUpdate) (x : Item) : Item → Prop
  | same : DeviceBecomes u x x
  | presence (presence : String) (h : u.kind = .presence) :
    DeviceBecomes u x (setText "presence" presence x)
  | paired (device : Item) (h : u.kind = .devicePaired) : DeviceBecomes u x (pairDevice device x)

variable (tryParse) in
/-- The cleanliness is not calculated earlier. -/
def Later (x y : Item) : Prop := ∀ t t', timeOf tryParse (x "cleanlinessCalculatedAt") = some t →
  timeOf tryParse (y "cleanlinessCalculatedAt") = some t' → t ≤ t'

lemma later_of_eq (h : y "cleanlinessCalculatedAt" = x "cleanlinessCalculatedAt") :
    Later tryParse x y := by
  intro t t' ht ht'
  rw [h, ht] at ht'
  exact Int.le_of_eq (Option.some.inj ht')

lemma later_setCleanliness (snapshot : Item) :
    Later tryParse x (setCleanliness tryParse snapshot x) := by
  by_cases h : _snapshotIsNewer tryParse (x "cleanlinessCalculatedAt") (snapshot "calculatedAt") = true
  · intro t t' ht ht'
    obtain ⟨t₁, ht₁, hlt⟩ := snapshotIsNewer_iff.mp h
    rw [calculatedAt_setCleanliness h, ht₁] at ht'
    exact Option.some.inj ht' ▸ Int.le_of_lt (hlt t ht)
  · refine later_of_eq ?_
    rw [setCleanliness, if_neg h]

variable (tryParse) in
inductive RoomBecomes (u : RealtimeHomeUpdate) (activeRoomIds : List String) (x : Item) :
    Item → Prop
  | same : RoomBecomes u activeRoomIds x x
  | later {y : Item} (hkind : u.kind ≠ .roomCreated) (h : Later tryParse x y) :
    RoomBecomes u activeRoomIds x y
  | created {room : Item} {id : String} (hkind : u.kind = .roomCreated) (hroom : u.room = some room)
    (hid : u.roomId = some id) (hactive : id ∈ activeRoomIds) (hx : x.is "id" id = true) :
    RoomBecomes u activeRoomIds x (x.merge (nextRoom room))

/-! ### Updates as edits -/

variable {u : RealtimeHomeUpdate} {activeDeviceIds activeRoomIds : List String}

variable (tryParse) in
/-- The update edits the devices and the rooms, whatever the screen is. -/
structure Reduces (u : RealtimeHomeUpdate) (activeDeviceIds activeRoomIds : List String)
    (onDevices onRooms : List Item → List Item) : Prop where
  devices : Edits (otherDevice u) activeDeviceIds onDevices
  rooms : Edits (otherRoom u) activeRoomIds onRooms
  device : Becomes (DeviceBecomes u) onDevices
  room : Becomes (RoomBecomes tryParse u activeRoomIds) onRooms
  result : ∀ d, reduceHomeDataForRealtimeUpdate tryParse d u activeDeviceIds activeRoomIds =
    some { d with devices := onDevices d.devices, rooms := onRooms d.rooms }

lemma becomes_device_id : Becomes (DeviceBecomes u) fun items => items :=
  becomes_of_subset (fun _ => .same) fun _ _ hy => hy

lemma becomes_room_id : Becomes (RoomBecomes tryParse u activeRoomIds) fun items => items :=
  becomes_of_subset (fun _ => .same) fun _ _ hy => hy

/-- The screen is left as it is. -/
lemma reduces_id (h : ∀ d, reduceHomeDataForRealtimeUpdate tryParse d u activeDeviceIds
    activeRoomIds = some d) :
    ∃ onDevices onRooms, Reduces tryParse u activeDeviceIds activeRoomIds onDevices onRooms :=
  ⟨_, _, edits_id, edits_id, becomes_device_id, becomes_room_id, h⟩

lemma reduces_devices {g : List Item → List Item} (hg : Edits (otherDevice u) activeDeviceIds g)
    (hb : Becomes (DeviceBecomes u) g)
    (h : ∀ d, reduceHomeDataForRealtimeUpdate tryParse d u activeDeviceIds activeRoomIds =
      some { d with devices := g d.devices }) :
    ∃ onDevices onRooms, Reduces tryParse u activeDeviceIds activeRoomIds onDevices onRooms :=
  ⟨g, _, hg, edits_id, hb, becomes_room_id, h⟩

lemma reduces_rooms {g : List Item → List Item} (hg : Edits (otherRoom u) activeRoomIds g)
    (hb : Becomes (RoomBecomes tryParse u activeRoomIds) g)
    (h : ∀ d, reduceHomeDataForRealtimeUpdate tryParse d u activeDeviceIds activeRoomIds =
      some { d with rooms := g d.rooms }) :
    ∃ onDevices onRooms, Reduces tryParse u activeDeviceIds activeRoomIds onDevices onRooms :=
  ⟨_, g, edits_id, hg, becomes_device_id, hb, h⟩

lemma otherDevice_of_is (hd : u.deviceId = some id) (hx : x.is "id" id = true) :
    otherDevice u x = false := by
  simp [otherDevice, hd, hx]

lemma otherRoom_of_is (hr : u.roomId = some id) (hx : x.is "id" id = true) :
    otherRoom u x = false := by
  simp [otherRoom, hr, hx]

lemma setText_of_ne {key text k : String} (h : k ≠ key) (x : Item) : setText key text x k = x k := by
  rw [setText]
  split_ifs
  · rfl
  · exact put_of_ne h _ _

lemma setCount_of_ne {count : ℤ} {k : String} (h : k ≠ "pendingProposalCount") (x : Item) :
    setCount count x k = x k := by
  rw [setCount]
  split_ifs
  · rfl
  · exact put_of_ne h _ _

lemma pairDevice_id {device : Item} (h : device "id" = some (.str id)) (hx : x.is "id" id = true) :
    pairDevice device x "id" = x "id" := by
  rw [pairDevice_of_ne _ _ (by decide), h, is_iff.mp hx]
  rfl

lemma nextRoom_id {room : Item} (h : room "id" = some (.str id)) :
    nextRoom room "id" = some (.str id) := by
  rw [nextRoom, Item.merge, h]
  rfl

lemma merge_id {y : Item} (h : y "id" = some (.str id)) (hx : x.is "id" id = true) :
    x.merge y "id" = x "id" := by
  rw [Item.merge, h, is_iff.mp hx]
  rfl

/-- **What an update does**: it edits the lists at the entry that it names, or asks for a new
summary. -/
lemma reduce_cases (hv : u.Valid) :
    (∀ d, reduceHomeDataForRealtimeUpdate tryParse d u activeDeviceIds activeRoomIds = none) ∨
      ∃ onDevices onRooms, Reduces tryParse u activeDeviceIds activeRoomIds onDevices onRooms := by
  obtain ⟨kind, deviceId, roomId, device, room, count, snapshot, presence, status⟩ := u
  cases kind with
  | refreshSummary => exact .inl fun _ => rfl
  | commandStatus => exact .inr (reduces_id fun _ => rfl)
  | devicePaired =>
    refine .inr ?_
    cases deviceId with
    | none => exact reduces_id fun _ => rfl
    | some id =>
      cases device with
      | none => exact reduces_id fun _ => rfl
      | some device =>
        have hid := hv.device id rfl device rfl
        have hnew : nextDevice device "id" = some (.str id) := by
          rw [nextDevice, put_of_ne (by decide), hid]
        by_cases hactive : id ∈ activeDeviceIds
        · exact reduces_devices
            (edits_upsert (fun x => pairDevice_id hid) (pairDevice_pairDevice device)
              (fun x => otherDevice_of_is rfl) hnew (pairDevice_nextDevice device) hactive)
            (becomes_upsert (fun x => pairDevice_id hid) hnew (fun x => .same)
              fun x _ => .paired device rfl)
            fun d => if_pos hactive
        · exact reduces_id fun d => if_neg hactive
  | presence =>
    refine .inr ?_
    cases deviceId with
    | none => exact reduces_id fun _ => rfl
    | some id =>
      cases presence with
      | none => exact reduces_id fun _ => rfl
      | some presence =>
        by_cases hactive : id ∈ activeDeviceIds
        · exact reduces_devices
            (edits_patch (fun x _ => setText_of_ne (by decide) x)
              (setText_setText "presence" presence) fun x => otherDevice_of_is rfl)
            (becomes_patch (fun x _ => setText_of_ne (by decide) x) (fun x => .same)
              fun x _ => .presence presence rfl)
            fun d => if_pos hactive
        · exact reduces_id fun d => if_neg hactive
  | deviceRemoved =>
    refine .inr ?_
    cases deviceId with
    | none => exact reduces_id fun _ => rfl
    | some id =>
      refine ⟨_, _, edits_filter (fun x hx => ?_), edits_filter (fun x hx => ?_),
        becomes_of_subset (fun x => .same) fun _ _ => List.mem_of_mem_filter,
        becomes_of_subset (fun x => .same) fun _ _ => List.mem_of_mem_filter, fun d => rfl⟩
      · simpa [otherDevice] using hx
      · simp only [otherRoom, Option.any_some, decide_true, Bool.true_and, Bool.and_eq_true] at hx
        exact hx.2
  | roomCreated =>
    refine .inr ?_
    cases roomId with
    | none => exact reduces_id fun _ => rfl
    | some id =>
      cases room with
      | none => exact reduces_id fun _ => rfl
      | some room =>
        have hid := nextRoom_id (hv.room id rfl room rfl)
        by_cases hactive : id ∈ activeRoomIds
        · exact reduces_rooms
            (edits_upsert (fun x => merge_id hid) (fun x => merge_merge x _)
              (fun x => otherRoom_of_is rfl) hid (merge_self _) hactive)
            (becomes_upsert (fun x => merge_id hid) hid (fun x => .same)
              fun x hx => .created rfl rfl rfl hactive hx)
            fun d => if_pos hactive
        · exact reduces_id fun d => if_neg hactive
  | roomRemoved =>
    refine .inr ?_
    cases roomId with
    | none => exact reduces_id fun _ => rfl
    | some id =>
      refine reduces_rooms (edits_filter (fun x hx => ?_))
        (becomes_of_subset (fun x => .same) fun _ _ => List.mem_of_mem_filter) fun d => rfl
      simp only [otherRoom, Option.any_some, Bool.and_eq_true] at hx
      exact hx.1
  | proposalCreated | decisionCreated =>
    cases roomId with
    | none => exact .inr (reduces_id fun _ => rfl)
    | some id =>
      by_cases hactive : id ∈ activeRoomIds
      · cases count with
        | none => exact .inl fun d => if_pos hactive
        | some count => exact .inr (reduces_rooms
            (edits_patch (fun x _ => setCount_of_ne (by decide) x) (setCount_setCount count)
              fun x => otherRoom_of_is rfl)
            (becomes_patch (fun x _ => setCount_of_ne (by decide) x) (fun x => .same)
              fun x _ => .later nofun (later_of_eq (setCount_of_ne (by decide) x)))
            fun d => if_pos hactive)
      · exact .inr (reduces_id fun d => if_neg hactive)
  | roomSnapshotUpdated =>
    refine .inr ?_
    cases roomId with
    | none => exact reduces_id fun _ => rfl
    | some id =>
      cases snapshot with
      | none => exact reduces_id fun _ => rfl
      | some snapshot =>
        by_cases hactive : id ∈ activeRoomIds
        · have hid (x : Item) : setCleanliness tryParse snapshot x "id" = x "id" := by
            refine setCleanliness_of_ne (?_ : "id" ∉ (Learnt.cleanliness id).keys)
            simp [Learnt.keys]
          exact reduces_rooms
            (edits_patch (fun x _ => hid x) (setCleanliness_setCleanliness snapshot)
              fun x => otherRoom_of_is rfl)
            (becomes_patch (fun x _ => hid x) (fun x => .same)
              fun x _ => .later nofun (later_setCleanliness snapshot))
            fun d => if_pos hactive
        · exact reduces_id fun d => if_neg hactive
  | executionStatus =>
    refine .inr ?_
    cases roomId with
    | none => exact reduces_id fun _ => rfl
    | some id =>
      cases status with
      | none => exact reduces_id fun _ => rfl
      | some status =>
        by_cases hactive : id ∈ activeRoomIds
        · exact reduces_rooms
            (edits_patch (fun x _ => setText_of_ne (by decide) x)
              (setText_setText "latestExecutionStatus" status) fun x => otherRoom_of_is rfl)
            (becomes_patch (fun x _ => setText_of_ne (by decide) x) (fun x => .same)
              fun x _ => .later nofun (later_of_eq (setText_of_ne (by decide) x)))
            fun d => if_pos hactive
        · exact reduces_id fun d => if_neg hactive

/-! ### One message -/

variable {d next : HomeData} {before after : Item} {entryId : String}

/-- A new summary is asked for, or both lists are edited. -/
lemma reduces_of_some (hv : u.Valid)
    (hr : reduceHomeDataForRealtimeUpdate tryParse d u activeDeviceIds activeRoomIds = some next) :
    ∃ onDevices onRooms, Reduces tryParse u activeDeviceIds activeRoomIds onDevices onRooms ∧
      next = { d with devices := onDevices d.devices, rooms := onRooms d.rooms } := by
  have hcases : (∀ d, reduceHomeDataForRealtimeUpdate tryParse d u activeDeviceIds activeRoomIds =
      none) ∨ ∃ onDevices onRooms,
        Reduces tryParse u activeDeviceIds activeRoomIds onDevices onRooms := reduce_cases hv
  rcases hcases with hnone | ⟨onDevices, onRooms, h⟩
  · rw [hnone d] at hr
    exact absurd hr.symm (Option.some_ne_none _)
  · rw [h.result d] at hr
    exact ⟨onDevices, onRooms, h, (Option.some.inj hr).symm⟩

lemma device_becomes (hv : u.Valid) (hd : d.Distinct)
    (hr : reduceHomeDataForRealtimeUpdate tryParse d u activeDeviceIds activeRoomIds = some next)
    (hbefore : d.entry (.device entryId) = some before)
    (hafter : next.entry (.device entryId) = some after) : DeviceBecomes u before after := by
  obtain ⟨onDevices, onRooms, h, rfl⟩ := reduces_of_some hv hr
  obtain ⟨hx, hxid⟩ := (find_iff hd.devices).mp hbefore
  obtain ⟨hy, hyid⟩ := (find_iff (h.devices.nodup _ hd.devices)).mp hafter
  exact h.device _ hd.devices _ hx _ hy (hxid.trans hyid.symm)

lemma room_becomes (hv : u.Valid) (hd : d.Distinct)
    (hr : reduceHomeDataForRealtimeUpdate tryParse d u activeDeviceIds activeRoomIds = some next)
    (hbefore : d.entry (.room entryId) = some before)
    (hafter : next.entry (.room entryId) = some after) :
    RoomBecomes tryParse u activeRoomIds before after := by
  obtain ⟨onDevices, onRooms, h, rfl⟩ := reduces_of_some hv hr
  obtain ⟨hx, hxid⟩ := (find_iff hd.rooms).mp hbefore
  obtain ⟨hy, hyid⟩ := (find_iff (h.rooms.nodup _ hd.rooms)).mp hafter
  exact h.room _ hd.rooms _ hx _ hy (hxid.trans hyid.symm)

/-- The room that is created, where it is shown already. -/
lemma entry_created {room : Item} (hv : u.Valid) (hd : d.Distinct) (hkind : u.kind = .roomCreated)
    (hid : u.roomId = some id) (hroom : u.room = some room) (hactive : id ∈ activeRoomIds)
    (hbefore : d.entry (.room id) = some before) :
    ∃ next, reduceHomeDataForRealtimeUpdate tryParse d u activeDeviceIds activeRoomIds = some next ∧
      next.entry (.room id) = some (before.merge (nextRoom room)) := by
  obtain ⟨hx, hxid⟩ := (find_iff hd.rooms).mp hbefore
  have hresult : reduceHomeDataForRealtimeUpdate tryParse d u activeDeviceIds activeRoomIds =
      some { d with
        rooms := upsert id (fun existing => existing.merge (nextRoom room)) (nextRoom room)
          d.rooms } := by
    rw [reduceHomeDataForRealtimeUpdate, hkind, hid, hroom]
    exact if_pos hactive
  obtain ⟨onDevices, onRooms, h, hnext⟩ := reduces_of_some hv hresult
  refine ⟨_, hresult, (find_iff ?_).mpr ⟨?_, ?_⟩⟩
  · have hnodup := h.rooms.nodup _ hd.rooms
    rwa [show onRooms d.rooms = _ from (congrArg HomeData.rooms hnext).symm] at hnodup
  · have hany : (d.rooms.any (·.is "id" id)) = true := List.any_eq_true.mpr ⟨before, hx, is_iff.mpr hxid⟩
    change before.merge (nextRoom room) ∈ upsert id _ _ d.rooms
    rw [upsert, if_pos hany]
    exact List.mem_map.mpr ⟨before, hx, if_pos (is_iff.mpr hxid)⟩
  · rw [merge_id (nextRoom_id (hv.room id hid room hroom)) (is_iff.mpr hxid), hxid]

/-! ### Runs -/

/-- The ids are distinct, and a presence that was learnt is one. -/
structure Inv (w : World) : Prop where
  distinct : w.data.Distinct
  presence : ∀ id, .presence id ∈ w.learnt → ∃ device presence,
    w.data.entry (.device id) = some device ∧ device "presence" = some (.str presence)

variable {w w' : World} {e : Delivery}

lemma kind_of_creates_device (h : u.creates = some (.device id)) : u.kind = .devicePaired := by
  unfold RealtimeHomeUpdate.creates at h
  split at h
  · next hkind => exact hkind
  · obtain ⟨_, -, hs⟩ := Option.map_eq_some_iff.mp h
    cases hs
  · exact absurd h (Option.some_ne_none _).symm

lemma kind_of_creates_room (h : u.creates = some (.room id)) :
    u.kind = .roomCreated ∧ u.roomId = some id := by
  unfold RealtimeHomeUpdate.creates at h
  split at h
  · obtain ⟨_, -, hs⟩ := Option.map_eq_some_iff.mp h
    cases hs
  · next hkind =>
    obtain ⟨_, hid, hs⟩ := Option.map_eq_some_iff.mp h
    cases hs
    exact ⟨hkind, hid⟩
  · exact absurd h (Option.some_ne_none _).symm

/-- A pairing that comes again leaves the presence. -/
lemma kept_device (hw : Inv w) (hv : u.Valid)
    (hr : reduceHomeDataForRealtimeUpdate tryParse w.data u activeDeviceIds activeRoomIds = some next)
    (hs : u.creates = some (.device entryId)) {l : Learnt} (hl : l ∈ w.learnt)
    (hsubject : l.subject = .device entryId) {key : String} (hkey : key ∈ l.keys)
    (hbefore : w.data.entry (.device entryId) = some before)
    (hafter : next.entry (.device entryId) = some after) : after key = before key := by
  have hkind := kind_of_creates_device hs
  cases l with
  | presence id =>
    cases hsubject
    rw [Learnt.keys, List.mem_singleton] at hkey
    obtain ⟨device, presence, hdevice, hpresence⟩ := hw.presence _ hl
    rw [hbefore] at hdevice
    cases hdevice
    cases device_becomes hv hw.distinct hr hbefore hafter with
    | same => rfl
    | presence _ h => exact absurd (hkind.symm.trans h) nofun
    | paired device _ =>
      rw [hkey, presence_pairDevice, hpresence]
      rfl
  | _ => cases hsubject

lemma sound_of_agrees (hw : Inv w) (h : Agrees tryParse w e)
    (hu : realtimeHomeUpdateFor e.event e.data = some u)
    (hr : reduceHomeDataForRealtimeUpdate tryParse w.data u e.activeDeviceIds e.activeRoomIds =
      some next) : Sound tryParse w e u next := by
  have hv : u.Valid := valid_of_parse u hu
  have hdistinct := hw.distinct
  -- The creation of a room that is shown is where the message must agree.
  have hcreated {id : String} {room before : Item} (hkind : u.kind = .roomCreated)
      (hroom : u.room = some room) {roomId : String} (hid : u.roomId = some roomId)
      (hactive : roomId ∈ e.activeRoomIds) (hx : before.is "id" roomId = true)
      (hbefore : w.data.entry (.room id) = some before) :
      Later tryParse before (before.merge (nextRoom room)) ∧ (.room id ∈ w.created →
        ∀ l ∈ w.learnt, l.subject = .room id → ∀ key ∈ l.keys,
          before.merge (nextRoom room) key = before key) := by
    have hsame : roomId = id := by
      have hxid := ((find_iff hdistinct.rooms).mp hbefore).2
      rw [is_iff.mp hx] at hxid
      cases hxid
      rfl
    subst hsame
    obtain ⟨hlater, hkept⟩ := h u hu hkind roomId hid room hroom hactive before hbefore
    refine ⟨fun t t' ht ht' => hlater t t' ht ?_, fun hc l hl hsubject key hkey => ?_⟩
    · rwa [merge_nextRoom room before (l := .cleanliness roomId) rfl (by simp [Learnt.keys])] at ht'
    · rw [merge_nextRoom room before hsubject hkey, hkept hc l hl hsubject key hkey]
  obtain ⟨onDevices, onRooms, hred, hnext⟩ := reduces_of_some hv hr
  refine ⟨?_, ?_, ?_, ?_, ?_, ?_, ?_, fun id before after hbefore hafter => ?_,
    fun s hs hc l hl hsubject key hkey before after hbefore hafter => ?_⟩
  · exact hnext ▸ ⟨hred.devices.nodup _ hdistinct.devices, hred.rooms.nodup _ hdistinct.rooms⟩
  · exact hnext ▸ hred.devices.new _
  · exact hnext ▸ hred.rooms.new _
  · exact hnext ▸ hred.devices.others _
  · exact hnext ▸ hred.rooms.others _
  · exact hnext ▸ rfl
  · rw [hnext, hred.result, hred.devices.idempotent, hred.rooms.idempotent]
  · cases room_becomes hv hdistinct hr hbefore hafter with
    | same => exact later_of_eq rfl
    | later _ hlater => exact hlater
    | created hkind hroom hid hactive hx =>
      exact (hcreated hkind hroom hid hactive hx hbefore).1
  · cases s with
    | device id => exact kept_device hw hv hr hs hl hsubject hkey hbefore hafter
    | room id =>
      cases room_becomes hv hdistinct hr hbefore hafter with
      | same => rfl
      | later hkind _ => exact absurd (kind_of_creates_room hs).1 hkind
      | created hkind hroom hid hactive hx =>
        exact (hcreated hkind hroom hid hactive hx hbefore).2 hc l hl hsubject key hkey

lemma agrees_of_sound (hw : Inv w) (h : AnsweredSoundly tryParse w e) : Agrees tryParse w e := by
  intro u hu hkind id hid room hroom hactive before hbefore
  have hv : u.Valid := valid_of_parse u hu
  obtain ⟨next, hr, hafter⟩ : ∃ next,
      reduceHomeDataForRealtimeUpdate tryParse w.data u e.activeDeviceIds e.activeRoomIds =
        some next ∧ next.entry (.room id) = some (before.merge (nextRoom room)) :=
    entry_created hv hw.distinct hkind hid hroom hactive hbefore
  have hsound := h u hu next hr
  have hcreates : u.creates = some (.room id) := by
    rw [RealtimeHomeUpdate.creates, hkind, show u.roomId = some id from hid]
    rfl
  refine ⟨fun t t' ht ht' => ?_, fun hcreated l hl hsubject key hkey => ?_⟩
  · refine hsound.notEarlier id before _ hbefore hafter t t' ht ?_
    rwa [merge_nextRoom room before (l := .cleanliness id) rfl (by simp [Learnt.keys])]
  · have hkept := hsound.kept _ hcreates hcreated l hl hsubject key hkey before _ hbefore hafter
    rwa [merge_nextRoom room before hsubject hkey] at hkept

lemma setText_self (key text : String) (x : Item) : setText key text x key = some (.str text) := by
  rw [setText]
  split_ifs with h
  · exact is_iff.mp h
  · exact put_self x key _

/-- A device with a presence keeps one. -/
lemma DeviceBecomes.presence_str {presence : String} (h : DeviceBecomes u x y)
    (hx : x "presence" = some (.str presence)) : ∃ p, y "presence" = some (.str p) := by
  cases h with
  | same => exact ⟨presence, hx⟩
  | presence p _ => exact ⟨p, setText_self _ _ _⟩
  | paired device _ =>
    refine ⟨presence, ?_⟩
    rw [presence_pairDevice, hx]
    rfl

lemma presence_of_tells (h : u.tells tryParse d = some (.presence id)) :
    u.kind = .presence ∧ u.deviceId = some id ∧ ∃ presence, u.presence = some presence := by
  unfold RealtimeHomeUpdate.tells at h
  split at h
  · next hkind =>
    split_ifs at h with hp
    obtain ⟨_, hid, hs⟩ := Option.map_eq_some_iff.mp h
    cases hs
    exact ⟨hkind, hid, Option.isSome_iff_exists.mp hp⟩
  · obtain ⟨_, -, hs⟩ := Option.map_eq_some_iff.mp h
    cases hs
  · obtain ⟨_, -, hs⟩ := Option.map_eq_some_iff.mp h
    cases hs
  · split_ifs at h
    obtain ⟨_, -, hs⟩ := Option.map_eq_some_iff.mp h
    cases hs
  · split at h
    · split at h
      · split_ifs at h
        cases Option.some.inj h
      · exact absurd h (Option.some_ne_none _).symm
    · exact absurd h (Option.some_ne_none _).symm
  · exact absurd h (Option.some_ne_none _).symm

/-- The device has the presence that was told. -/
lemma told_presence {presence : String} (hkind : u.kind = .presence)
    (hid : u.deviceId = some id) (hp : u.presence = some presence) (hactive : id ∈ activeDeviceIds)
    (hr : reduceHomeDataForRealtimeUpdate tryParse d u activeDeviceIds activeRoomIds = some next)
    (hafter : next.entry (.device id) = some after) : after "presence" = some (.str presence) := by
  rw [reduceHomeDataForRealtimeUpdate, hkind, hid, hp] at hr
  have hnext := Option.some.inj ((if_pos hactive).symm.trans hr)
  rw [← hnext] at hafter
  have hafterId : after.is "id" id = true := by simpa using List.find?_some hafter
  obtain ⟨x, -, rfl⟩ := List.mem_map.mp (List.mem_of_find?_eq_some hafter)
  by_cases hx : x.is "id" id = true
  · rw [if_pos hx]
    exact setText_self _ _ _
  · rw [if_neg hx] at hafterId
    exact absurd hafterId hx

lemma inv_remember (hw : Inv w) (hu : realtimeHomeUpdateFor e.event e.data = some u)
    (hr : reduceHomeDataForRealtimeUpdate tryParse w.data u e.activeDeviceIds e.activeRoomIds =
      some next) : Inv (w.remember tryParse e u next) := by
  have hv : u.Valid := valid_of_parse u hu
  refine ⟨?_, fun id hl => ?_⟩
  · obtain ⟨onDevices, onRooms, h, hnext⟩ := reduces_of_some hv hr
    change next.Distinct
    exact hnext ▸ ⟨h.devices.nodup _ hw.distinct.devices, h.rooms.nodup _ hw.distinct.rooms⟩
  · obtain ⟨hmem, hshown⟩ := List.mem_filter.mp hl
    obtain ⟨after, hafter⟩ := Option.isSome_iff_exists.mp hshown
    refine ⟨after, ?_⟩
    rcases List.mem_append.mp hmem with htold | hlearnt
    · obtain ⟨htells, hactive⟩ := List.mem_filter.mp htold
      obtain ⟨hkind, hid, presence, hp⟩ := presence_of_tells (Option.mem_toList.mp htells)
      exact ⟨presence, hafter,
        told_presence hkind hid hp (of_decide_eq_true (of_decide_eq_true hactive).1) hr hafter⟩
    · obtain ⟨before, presence, hbefore, hp⟩ := hw.presence id hlearnt
      obtain ⟨p, hp'⟩ := (device_becomes hv hw.distinct hr hbefore hafter).presence_str hp
      exact ⟨p, hafter, hp'⟩

lemma inv_step (hw : Inv w) (h : step tryParse w e = some w') : Inv w' := by
  unfold step at h
  split at h
  · exact Option.some.inj h ▸ hw
  · next u hu =>
    split at h
    · exact Option.some.inj h ▸ hw
    · next next hr => exact Option.some.inj h ▸ inv_remember hw hu hr

lemma inv_start (hd : d.Distinct) : Inv (World.start d) :=
  ⟨hd, fun _ h => absurd h List.not_mem_nil⟩

lemma answeredSoundly_iff (hw : Inv w) : AnsweredSoundly tryParse w e ↔ Agrees tryParse w e :=
  ⟨agrees_of_sound hw, fun h _ hu _ hr => sound_of_agrees hw h hu hr⟩

def roomCreated : Delivery where
  event := "room.created"
  data := .obj [("payload", .obj [("roomId", .str "room"), ("room", .obj [("id", .str "room"),
    ("status", .str "ACTIVE"), ("desktopDeviceId", .str "device"), ("name", .str "Downloads"),
    ("rootAlias", .str "downloads"), ("createdAt", .str "2026-01-01T00:00:00Z")])])]
  activeDeviceIds := ["device"]
  activeRoomIds := ["room"]

def proposalCreated : Delivery where
  event := "proposal.created"
  data := .obj [("payload", .obj [("roomId", .str "room"), ("proposalId", .str "proposal"),
    ("status", .str "PENDING"), ("pendingProposalCount", .num 3)])]
  activeDeviceIds := ["device"]
  activeRoomIds := ["room"]

def noData : HomeData := ⟨[], [], false, 0, 0, none⟩

lemma distinct_noData : noData.Distinct := ⟨List.nodup_nil, List.nodup_nil⟩

end MouseKeeper.Mobile.HomeUpdates
