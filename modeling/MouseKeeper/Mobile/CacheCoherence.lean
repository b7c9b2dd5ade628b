import MouseKeeper.Mobile.DisplayCache

/-!
What the display cache keeps together.

Whatever is cached for a room goes with the room, a room or device comes in only by a call that
lists all of them, and an account sees nothing of the calls of the others.
-/

namespace MouseKeeper.Mobile.DisplayCache

open MouseKeeper.Contracts (Fields Json)
open MouseKeeper.Mobile.Outbox (Reading)

namespace Database

def deviceKeys (db : Database) : List (ℕ × String) := db.cachedDevices.rows.map TopRow.key

def roomKeys (db : Database) : List (ℕ × String) := db.cachedRooms.rows.map TopRow.key

/-- The account and the room of every row that belongs to a room. -/
def details (db : Database) : List (ℕ × String) :=
  db.cachedCommands.rows.map (fun r => (r.ownerUid, r.roomId)) ++
    db.cachedProposals.rows.map (fun r => (r.ownerUid, r.roomId)) ++
    db.cachedExecutions.rows.map (fun r => (r.ownerUid, r.roomId)) ++
    db.cachedRoomSnapshots.rows.map (fun r => (r.ownerUid, r.roomId)) ++
    db.cachedSmartCacheFiles.rows.map fun r => (r.ownerUid, r.roomId)

/-- Every such row belongs to a room that is cached for its account. -/
def Coherent (db : Database) : Prop := ∀ k ∈ db.details, k ∈ db.roomKeys

/-- The rows of the other accounts, in all tables. -/
def others (db : Database) (ownerUid : ℕ) : Database := db.purgeConnectionDisplayData ownerUid

end Database

/-- The ids that the values of a response have. -/
def ids (values : List Fields) : List String := values.filterMap (stringField · "id")

/-- An authoritative replacement that lists the room. -/
def Call.ListsRoom (roomId : String) : Call → Prop
  | .replaceConnectionState _ rooms => roomId ∈ ids rooms
  | .replaceRooms values => roomId ∈ ids values
  | _ => False

/-- An authoritative replacement that lists the device. -/
def Call.ListsDevice (deviceId : String) : Call → Prop
  | .replaceConnectionState devices _ => deviceId ∈ ids devices
  | .replaceDevices values => deviceId ∈ ids values
  | _ => False

/-- What one call does. -/
structure Effect (ownerUid : ℕ) (c : Call) (db db' : Database) : Prop where
  others : db'.others ownerUid = db.others ownerUid
  rooms : ∀ k ∈ db'.roomKeys, k ∈ db.roomKeys ∨ k.1 = ownerUid ∧ c.ListsRoom k.2
  devices : ∀ k ∈ db'.deviceKeys, k ∈ db.deviceKeys ∨ k.1 = ownerUid ∧ c.ListsDevice k.2
  coherent : db.Coherent → db'.Coherent

variable {v : Reading} {ownerUid : ℕ} {db db' : Database} {k : ℕ × String}

/-! ### Top-level rows -/

lemma key_of_topRow {value : Fields} {r : TopRow} (h : topRow ownerUid value = some r) :
    r.ownerUid = ownerUid ∧ stringField value "id" = some r.id := by
  obtain ⟨id, hid, h⟩ := Option.bind_eq_some_iff.mp h
  cases h
  exact ⟨rfl, hid⟩

/-- If no value fails, the rows have the ids that the values have. -/
lemma keys_of_mapM {values : List Fields} {rows : List TopRow}
    (h : values.mapM (topRow ownerUid) = some rows) :
    rows.map TopRow.key = (ids values).map (ownerUid, ·) := by
  induction values generalizing rows with
  | nil =>
    cases h
    rfl
  | cons value values ih =>
    rw [List.mapM_cons] at h
    obtain ⟨r, hr, h⟩ := Option.bind_eq_some_iff.mp h
    obtain ⟨rs, hrs, h⟩ := Option.bind_eq_some_iff.mp h
    cases h
    obtain ⟨rfl, hid⟩ := key_of_topRow hr
    have hids : ids (value :: values) = r.id :: ids values := by simp [ids, hid]
    rw [List.map_cons, ih hrs, hids]
    rfl

lemma mem_delete_owner {t : Table TopRow.key} :
    k ∈ (t.delete fun r => r.ownerUid = ownerUid).rows.map TopRow.key ↔
      k ∈ t.rows.map TopRow.key ∧ k.1 ≠ ownerUid := by
  simp only [List.mem_map, Table.mem_delete, decide_eq_false_iff_not]
  constructor
  · rintro ⟨r, ⟨hr, ho⟩, rfl⟩
    exact ⟨⟨r, hr, rfl⟩, ho⟩
  · rintro ⟨⟨r, hr, rfl⟩, ho⟩
    exact ⟨r, ⟨hr, ho⟩, rfl⟩

/-- The owner's rows become those of the values. -/
lemma mem_replaceTop {values : List Fields} {t t' : Table TopRow.key}
    (h : replaceTop ownerUid values t = some t') :
    k ∈ t'.rows.map TopRow.key ↔
      k ∈ t.rows.map TopRow.key ∧ k.1 ≠ ownerUid ∨ k.1 = ownerUid ∧ k.2 ∈ ids values := by
  obtain ⟨rows, hrows, h⟩ := Option.bind_eq_some_iff.mp h
  rw [Table.rows_insertAll h, List.map_append, List.mem_append, mem_delete_owner,
    keys_of_mapM hrows]
  refine or_congr_right ⟨fun hk => ?_, fun ⟨ho, hk⟩ => ?_⟩
  · obtain ⟨id, hid, rfl⟩ := List.mem_map.mp hk
    exact ⟨rfl, hid⟩
  · exact List.mem_map.mpr ⟨k.2, hk, Prod.ext ho.symm rfl⟩

lemma delete_replaceTop {values : List Fields} {t t' : Table TopRow.key}
    (h : replaceTop ownerUid values t = some t') :
    t'.delete (fun r => r.ownerUid = ownerUid) = t.delete fun r => r.ownerUid = ownerUid := by
  obtain ⟨rows, hrows, h⟩ := Option.bind_eq_some_iff.mp h
  rw [Table.delete_insertAll h, Table.delete_delete fun _ h => h]
  intro r hr
  obtain ⟨value, -, hv⟩ := Contracts.mem_of_mapM hrows r hr
  exact decide_eq_true (key_of_topRow hv).1

lemma keys_enrichTop (t : Table TopRow.key) (values : List Fields) :
    (enrichTop ownerUid t values).rows.map TopRow.key = t.rows.map TopRow.key := by
  induction values generalizing t with
  | nil => rfl
  | cons value values ih =>
    rw [enrichTop, List.foldl_cons, ← enrichTop, ih]
    split
    · exact Table.keys_modify
    · rfl

lemma delete_enrichTop (t : Table TopRow.key) (values : List Fields) :
    (enrichTop ownerUid t values).delete (fun r => r.ownerUid = ownerUid) =
      t.delete fun r => r.ownerUid = ownerUid := by
  induction values generalizing t with
  | nil => rfl
  | cons value values ih =>
    rw [enrichTop, List.foldl_cons, ← enrichTop, ih]
    split
    · refine Table.delete_modify fun r hr => ?_
      have ho := (Bool.and_eq_true_iff.mp hr).1
      exact ⟨ho, ho⟩
    · rfl

/-! ### Rooms that are deleted with all that belongs to them -/

section DeleteRooms

variable {roomId : String} {roomIds : List String}

lemma details_deleteRoomRows : (db.deleteRoomRows v ownerUid roomId).details =
    db.details.filter fun k => !decide (k = (ownerUid, roomId)) := by
  simp only [Database.details, Database.deleteRoomRows, List.filter_append]
  rw [Table.map_delete fun k => decide (k = (ownerUid, roomId)),
    Table.map_delete fun k => decide (k = (ownerUid, roomId)),
    Table.map_delete fun k => decide (k = (ownerUid, roomId)),
    Table.map_delete fun k => decide (k = (ownerUid, roomId)),
    Table.map_delete fun k => decide (k = (ownerUid, roomId))]
  all_goals simp

lemma roomKeys_deleteRoomRows : (db.deleteRoomRows v ownerUid roomId).roomKeys =
    db.roomKeys.filter fun k => !decide (k = (ownerUid, roomId)) :=
  Table.map_delete (fun k => decide (k = (ownerUid, roomId))) fun r => by simp [TopRow.key]

lemma mem_details_deleteRooms : k ∈ (db.deleteRooms v ownerUid roomIds).details ↔
    k ∈ db.details ∧ ∀ id ∈ roomIds, k ≠ (ownerUid, id) := by
  induction roomIds generalizing db with
  | nil => simp [Database.deleteRooms]
  | cons id roomIds ih =>
    rw [Database.deleteRooms, List.foldl_cons, ← Database.deleteRooms, ih, details_deleteRoomRows]
    simp [and_assoc]

lemma mem_roomKeys_deleteRooms : k ∈ (db.deleteRooms v ownerUid roomIds).roomKeys ↔
    k ∈ db.roomKeys ∧ ∀ id ∈ roomIds, k ≠ (ownerUid, id) := by
  induction roomIds generalizing db with
  | nil => simp [Database.deleteRooms]
  | cons id roomIds ih =>
    rw [Database.deleteRooms, List.foldl_cons, ← Database.deleteRooms, ih, roomKeys_deleteRoomRows]
    simp [and_assoc]

lemma devices_deleteRooms :
    (db.deleteRooms v ownerUid roomIds).cachedDevices = db.cachedDevices := by
  induction roomIds generalizing db with
  | nil => rfl
  | cons id roomIds ih => exact ih

lemma others_deleteRoomRows :
    (db.deleteRoomRows v ownerUid roomId).others ownerUid = db.others ownerUid := by
  simp only [Database.others, Database.purgeConnectionDisplayData, Database.deleteRoomRows,
    Database.mk.injEq]
  refine ⟨trivial, ?_, ?_, ?_, ?_, ?_, ?_, ?_⟩
  all_goals exact Table.delete_delete fun r hr => (Bool.and_eq_true_iff.mp hr).1

lemma others_deleteRooms :
    (db.deleteRooms v ownerUid roomIds).others ownerUid = db.others ownerUid := by
  induction roomIds generalizing db with
  | nil => rfl
  | cons id roomIds ih => exact ih.trans others_deleteRoomRows

end DeleteRooms

/-- A room that is cached is listed, or it vanishes. -/
lemma listed_of_not_vanished {values : List Fields} (hk : k ∈ db.roomKeys) (ho : k.1 = ownerUid)
    (h : ∀ id ∈ db.vanished ownerUid values, k ≠ (ownerUid, id)) : k.2 ∈ ids values := by
  by_contra hn
  obtain ⟨r, hr, rfl⟩ := List.mem_map.mp hk
  refine h r.id (List.mem_filter.mpr ⟨List.mem_map_of_mem ?_, decide_eq_true hn⟩)
    (Prod.ext ho rfl)
  exact List.mem_filter.mpr ⟨hr, decide_eq_true ho⟩

/-! ### Rows of one room -/

lemma mem_map_or {α β : Type} {f : α → β} {l l' : List α} {b : β}
    (h : ∀ r ∈ l', r ∈ l ∨ f r = b) : ∀ k ∈ l'.map f, k ∈ l.map f ∨ k = b := by
  intro k hk
  obtain ⟨r, hr, rfl⟩ := List.mem_map.mp hk
  exact (h r hr).imp_left List.mem_map_of_mem

lemma mem_roomKeys {roomId : String} (h : db.cachedRoomExists ownerUid roomId = true) :
    (ownerUid, roomId) ∈ db.roomKeys := by
  obtain ⟨r, hr⟩ := Option.isSome_iff_exists.mp h
  obtain ⟨hr, hk⟩ := Table.mem_of_find hr
  exact List.mem_map.mpr ⟨r, hr, hk⟩

/-- Rows that are deleted and inserted for one room. -/
lemma replaced {α : Type} {key : α → ℕ × String} (owner : α → ℕ) (room : α → String)
    {roomId : String} {rows : List α} {t t' : Table key}
    (h : (t.delete fun r => owner r = ownerUid && room r = roomId).insertAll rows = some t')
    (hrows : ∀ r ∈ rows, owner r = ownerUid ∧ room r = roomId) :
    (t'.delete fun r => owner r = ownerUid) = (t.delete fun r => owner r = ownerUid) ∧
      ∀ r ∈ t'.rows, r ∈ t.rows ∨ (owner r, room r) = (ownerUid, roomId) := by
  constructor
  · rw [Table.delete_insertAll h fun r hr => decide_eq_true (hrows r hr).1]
    exact Table.delete_delete fun r hr => (Bool.and_eq_true_iff.mp hr).1
  · intro r hr
    rw [Table.rows_insertAll h] at hr
    rcases List.mem_append.mp hr with hr | hr
    · exact .inl (Table.mem_delete.mp hr).1
    · exact .inr (Prod.ext (hrows r hr).1 (hrows r hr).2)

lemma roomRow_room {roomId : String} {value : Fields} {r : RoomRow}
    (h : roomRow ownerUid roomId value = some r) : r.ownerUid = ownerUid ∧ r.roomId = roomId := by
  obtain ⟨id, -, h⟩ := Option.bind_eq_some_iff.mp h
  cases h
  exact ⟨rfl, rfl⟩

lemma executionRow_room {roomId : String} {value : Fields} {r : RoomRow}
    (h : executionRow ownerUid roomId value = some r) :
    r.ownerUid = ownerUid ∧ r.roomId = roomId := by
  obtain ⟨j, -, h⟩ := Option.bind_eq_some_iff.mp h
  obtain ⟨execution, -, h⟩ := Option.bind_eq_some_iff.mp h
  obtain ⟨id, -, h⟩ := Option.bind_eq_some_iff.mp h
  cases h
  exact ⟨rfl, rfl⟩

lemma smartCacheRow_room {roomId : String} {value : Fields} {r : SmartCacheRow}
    (h : smartCacheRow ownerUid roomId value = some r) :
    r.ownerUid = ownerUid ∧ r.roomId = roomId := by
  simp only [smartCacheRow, Option.bind_eq_bind, Option.bind_eq_some_iff, Option.some.injEq] at h
  obtain ⟨_, -, _, -, _, -, _, -, _, -, _, -, rfl⟩ := h
  exact ⟨rfl, rfl⟩

/-! ### The calls -/

section Calls

variable {c : Call}

lemma effect_refl : Effect ownerUid c db db :=
  ⟨rfl, fun _ hk => .inl hk, fun _ hk => .inl hk, fun h => h⟩

/-- A change of what rooms have, for rooms that are cached. -/
lemma effect_of_details (hd : db'.cachedDevices = db.cachedDevices)
    (hr : db'.cachedRooms = db.cachedRooms) (ho : db'.others ownerUid = db.others ownerUid)
    (hk : ∀ k ∈ db'.details, k ∈ db.details ∨ k ∈ db.roomKeys) : Effect ownerUid c db db' where
  others := ho
  rooms := fun k h => .inl (by rwa [Database.roomKeys, hr] at h)
  devices := fun k h => .inl (by rwa [Database.deviceKeys, hd] at h)
  coherent := fun hc k h => by
    rw [Database.roomKeys, hr]
    exact (hk k h).elim (hc k) fun h => h

lemma effect_replaceDevices {values : List Fields} {cachedDevices : Table TopRow.key}
    (h : replaceTop ownerUid values db.cachedDevices = some cachedDevices) :
    Effect ownerUid (.replaceDevices values) db { db with cachedDevices } where
  others := by
    simp only [Database.others, Database.purgeConnectionDisplayData, delete_replaceTop h]
  rooms := fun _ hk => .inl hk
  devices := fun _ hk => ((mem_replaceTop h).mp hk).imp_left And.left
  coherent := fun h => h

/-- Rooms that are not listed go with all they have, and the rooms of the owner become those
that are listed. -/
lemma coherent_replaced {values : List Fields} {cachedRooms : Table TopRow.key}
    (h : replaceTop ownerUid values
      (db.deleteRooms v ownerUid (db.vanished ownerUid values)).cachedRooms = some cachedRooms)
    (hc : db.Coherent) :
    ∀ k ∈ (db.deleteRooms v ownerUid (db.vanished ownerUid values)).details,
      k ∈ cachedRooms.rows.map TopRow.key := by
  intro k hk
  obtain ⟨hk, hne⟩ := mem_details_deleteRooms.mp hk
  rw [mem_replaceTop h]
  by_cases ho : k.1 = ownerUid
  · exact .inr ⟨ho, listed_of_not_vanished (hc k hk) ho hne⟩
  · exact .inl ⟨mem_roomKeys_deleteRooms.mpr ⟨hc k hk, hne⟩, ho⟩

lemma rooms_replaced {values : List Fields} {roomIds : List String}
    {cachedRooms : Table TopRow.key}
    (h : replaceTop ownerUid values (db.deleteRooms v ownerUid roomIds).cachedRooms =
      some cachedRooms) :
    ∀ k ∈ cachedRooms.rows.map TopRow.key,
      k ∈ db.roomKeys ∨ k.1 = ownerUid ∧ k.2 ∈ ids values := by
  intro k hk
  rcases (mem_replaceTop h).mp hk with ⟨hk, -⟩ | hk
  · exact .inl (mem_roomKeys_deleteRooms.mp hk).1
  · exact .inr hk

lemma effect_replaceConnectionState {devices rooms : List Fields}
    (h : db.replaceConnectionState v ownerUid devices rooms = some db') :
    Effect ownerUid (.replaceConnectionState devices rooms) db db' := by
  obtain ⟨cachedDevices, hd, h⟩ := Option.bind_eq_some_iff.mp h
  obtain ⟨cachedRooms, hr, h⟩ := Option.bind_eq_some_iff.mp h
  cases h
  refine ⟨?_, rooms_replaced hr, fun k hk => ?_, coherent_replaced hr⟩
  · have ho : (db.deleteRooms v ownerUid (db.vanished ownerUid rooms)).others ownerUid =
        db.others ownerUid := others_deleteRooms
    refine Eq.trans ?_ ho
    simp only [Database.others, Database.purgeConnectionDisplayData, delete_replaceTop hd,
      delete_replaceTop hr]
  · rw [devices_deleteRooms] at hd
    exact ((mem_replaceTop hd).mp hk).imp_left And.left

lemma effect_replaceRooms {values : List Fields}
    (h : db.replaceRooms v ownerUid values = some db') :
    Effect ownerUid (.replaceRooms values) db db' := by
  obtain ⟨cachedRooms, hr, h⟩ := Option.bind_eq_some_iff.mp h
  cases h
  refine ⟨?_, rooms_replaced hr, fun k hk => .inl ?_, coherent_replaced hr⟩
  · have ho : (db.deleteRooms v ownerUid (db.vanished ownerUid values)).others ownerUid =
        db.others ownerUid := others_deleteRooms
    refine Eq.trans ?_ ho
    simp only [Database.others, Database.purgeConnectionDisplayData, delete_replaceTop hr]
  · simpa only [Database.deviceKeys, devices_deleteRooms] using hk

lemma effect_enrich {devices rooms : List Fields} : Effect ownerUid c db { db with
    cachedDevices := enrichTop ownerUid db.cachedDevices devices
    cachedRooms := enrichTop ownerUid db.cachedRooms rooms } where
  others := by
    simp only [Database.others, Database.purgeConnectionDisplayData, delete_enrichTop]
  rooms := fun k hk => .inl (by rwa [Database.roomKeys, keys_enrichTop] at hk)
  devices := fun k hk => .inl (by rwa [Database.deviceKeys, keys_enrichTop] at hk)
  coherent := fun hc k hk => by
    rw [Database.roomKeys, keys_enrichTop]
    exact hc k hk

lemma effect_deleteRooms (roomIds : List String) :
    Effect ownerUid c db (db.deleteRooms v ownerUid roomIds) where
  others := others_deleteRooms
  rooms := fun k hk => .inl (mem_roomKeys_deleteRooms.mp hk).1
  devices := fun k hk => .inl (by rwa [Database.deviceKeys, devices_deleteRooms] at hk)
  coherent := fun hc k hk => by
    obtain ⟨hk, hne⟩ := mem_details_deleteRooms.mp hk
    exact mem_roomKeys_deleteRooms.mpr ⟨hc k hk, hne⟩

lemma effect_removeDeviceCascade (deviceId : String) :
    Effect ownerUid c db (db.removeDeviceCascade v ownerUid deviceId) := by
  have h : Effect ownerUid c db (db.deleteRooms v ownerUid (((db.ownRooms ownerUid).filter fun r =>
      stringField r.payloadJson "desktopDeviceId" = some deviceId).map (·.id))) :=
    effect_deleteRooms _
  obtain ⟨ho, hr, hd, hc⟩ := h
  refine ⟨?_, hr, fun k hk => hd k ?_, hc⟩
  · refine Eq.trans ?_ ho
    simp only [Database.others, Database.purgeConnectionDisplayData, Database.removeDeviceCascade]
    rw [Table.delete_delete fun r hr => (Bool.and_eq_true_iff.mp hr).1]
  · obtain ⟨r, hr, rfl⟩ := List.mem_map.mp hk
    exact List.mem_map_of_mem (Table.mem_delete.mp hr).1

lemma details_others : (db.others ownerUid).details =
    db.details.filter fun k => !decide (k.1 = ownerUid) := by
  simp only [Database.details, Database.others, Database.purgeConnectionDisplayData,
    List.filter_append]
  rw [Table.map_delete fun k => decide (k.1 = ownerUid),
    Table.map_delete fun k => decide (k.1 = ownerUid),
    Table.map_delete fun k => decide (k.1 = ownerUid),
    Table.map_delete fun k => decide (k.1 = ownerUid),
    Table.map_delete fun k => decide (k.1 = ownerUid)]
  all_goals exact fun _ => rfl

lemma mem_roomKeys_others :
    k ∈ (db.others ownerUid).roomKeys ↔ k ∈ db.roomKeys ∧ k.1 ≠ ownerUid := by
  have h : (db.others ownerUid).roomKeys = db.roomKeys.filter fun k => !decide (k.1 = ownerUid) :=
    Table.map_delete (fun k : ℕ × String => decide (k.1 = ownerUid)) fun _ => rfl
  rw [h, List.mem_filter]
  simp

lemma effect_purge : Effect ownerUid c db (db.purgeConnectionDisplayData ownerUid) where
  others := by
    simp only [Database.others, Database.purgeConnectionDisplayData, Database.mk.injEq]
    refine ⟨?_, ?_, ?_, ?_, ?_, ?_, ?_, ?_⟩
    all_goals exact Table.delete_delete fun _ h => h
  rooms := fun _ hk => .inl (mem_roomKeys_others.mp hk).1
  devices := fun k hk => .inl <| by
    obtain ⟨r, hr, rfl⟩ := List.mem_map.mp hk
    exact List.mem_map_of_mem (Table.mem_delete.mp hr).1
  coherent := fun hc k hk => by
    have hk : k ∈ (db.others ownerUid).details := hk
    rw [details_others, List.mem_filter] at hk
    exact mem_roomKeys_others.mpr ⟨hc k hk.1, by simpa using hk.2⟩

lemma effect_saveSnapshot (roomId : String) (value : Option Fields) :
    Effect ownerUid c db (db.saveSnapshot ownerUid roomId value) := by
  cases value with
  | none =>
    refine effect_of_details rfl rfl ?_ fun k hk => .inl ?_
    · simp only [Database.others, Database.purgeConnectionDisplayData, Database.saveSnapshot]
      rw [Table.delete_delete fun r hr => (Bool.and_eq_true_iff.mp hr).1]
    · have hsub : ∀ k ∈ (db.cachedRoomSnapshots.delete fun r =>
          r.ownerUid = ownerUid && r.roomId = roomId).rows.map fun r => (r.ownerUid, r.roomId),
          k ∈ db.cachedRoomSnapshots.rows.map fun r => (r.ownerUid, r.roomId) := by
        intro k hk
        obtain ⟨r, hr, rfl⟩ := List.mem_map.mp hk
        exact List.mem_map_of_mem (Table.mem_delete.mp hr).1
      have := hsub k
      simp only [Database.details, Database.saveSnapshot, List.mem_append] at hk ⊢
      tauto
  | some value =>
    simp only [Database.saveSnapshot]
    split_ifs with he
    · have ho : ((db.cachedRoomSnapshots.put ⟨ownerUid, roomId, value⟩).delete fun r =>
          r.ownerUid = ownerUid) = db.cachedRoomSnapshots.delete fun r => r.ownerUid = ownerUid :=
        Table.delete_put fun x hx => decide_eq_true (congrArg Prod.fst hx)
      refine effect_of_details rfl rfl ?_ fun k hk => ?_
      · simp only [Database.others, Database.purgeConnectionDisplayData, ho]
      · have hput : ∀ r ∈ (db.cachedRoomSnapshots.put ⟨ownerUid, roomId, value⟩).rows,
            r ∈ db.cachedRoomSnapshots.rows ∨ (r.ownerUid, r.roomId) = (ownerUid, roomId) :=
          fun r hr => (Table.mem_put hr).imp_right fun h => by rw [h]
        have := mem_map_or hput k
        have := mem_roomKeys he
        simp only [Database.details, List.mem_append] at hk ⊢
        grind
    · exact effect_refl

lemma effect_replaceCommands {roomId : String} {values : List Fields}
    (h : db.call v ownerUid (.replaceCommands roomId values) = some db') : Effect ownerUid c db db' := by
  simp only [Database.call] at h
  split_ifs at h with he
  · obtain ⟨rows, hrows, h⟩ := Option.bind_eq_some_iff.mp h
    obtain ⟨t, ht, h⟩ := Option.bind_eq_some_iff.mp h
    cases h
    obtain ⟨ho, hin⟩ := replaced RoomRow.ownerUid RoomRow.roomId ht fun r hr =>
      have ⟨_, _, hv⟩ := Contracts.mem_of_mapM hrows r hr
      roomRow_room hv
    refine effect_of_details rfl rfl ?_ fun k hk => ?_
    · simp only [Database.others, Database.purgeConnectionDisplayData, ho]
    · have := mem_map_or hin k
      have := mem_roomKeys he
      simp only [Database.details, List.mem_append] at hk ⊢
      grind
  · cases h
    exact effect_refl

lemma effect_replaceProposals {roomId : String} {values : List Fields}
    (h : db.call v ownerUid (.replaceProposals roomId values) = some db') : Effect ownerUid c db db' := by
  simp only [Database.call] at h
  split_ifs at h with he
  · obtain ⟨rows, hrows, h⟩ := Option.bind_eq_some_iff.mp h
    obtain ⟨t, ht, h⟩ := Option.bind_eq_some_iff.mp h
    cases h
    obtain ⟨ho, hin⟩ := replaced RoomRow.ownerUid RoomRow.roomId ht fun r hr =>
      have ⟨_, _, hv⟩ := Contracts.mem_of_mapM hrows r hr
      roomRow_room hv
    refine effect_of_details rfl rfl ?_ fun k hk => ?_
    · simp only [Database.others, Database.purgeConnectionDisplayData, ho]
    · have := mem_map_or hin k
      have := mem_roomKeys he
      simp only [Database.details, List.mem_append] at hk ⊢
      grind
  · cases h
    exact effect_refl

lemma effect_replaceExecutions {roomId : String} {values : List Fields}
    (h : db.call v ownerUid (.replaceExecutions roomId values) = some db') : Effect ownerUid c db db' := by
  simp only [Database.call] at h
  split_ifs at h with he
  · obtain ⟨rows, hrows, h⟩ := Option.bind_eq_some_iff.mp h
    obtain ⟨t, ht, h⟩ := Option.bind_eq_some_iff.mp h
    cases h
    obtain ⟨ho, hin⟩ := replaced RoomRow.ownerUid RoomRow.roomId ht fun r hr =>
      have ⟨_, _, hv⟩ := Contracts.mem_of_mapM hrows r hr
      executionRow_room hv
    refine effect_of_details rfl rfl ?_ fun k hk => ?_
    · simp only [Database.others, Database.purgeConnectionDisplayData, ho]
    · have := mem_map_or hin k
      have := mem_roomKeys he
      simp only [Database.details, List.mem_append] at hk ⊢
      grind
  · cases h
    exact effect_refl

lemma effect_replaceSmartCacheFiles {roomId : String} {values : List Fields}
    (h : db.call v ownerUid (.replaceSmartCacheFiles roomId values) = some db') : Effect ownerUid c db db' := by
  simp only [Database.call] at h
  split_ifs at h with he
  · obtain ⟨rows, hrows, h⟩ := Option.bind_eq_some_iff.mp h
    obtain ⟨t, ht, h⟩ := Option.bind_eq_some_iff.mp h
    cases h
    obtain ⟨ho, hin⟩ := replaced SmartCacheRow.ownerUid SmartCacheRow.roomId ht fun r hr =>
      have ⟨_, _, hv⟩ := Contracts.mem_of_mapM hrows r hr
      smartCacheRow_room hv
    refine effect_of_details rfl rfl ?_ fun k hk => ?_
    · simp only [Database.others, Database.purgeConnectionDisplayData, ho]
    · have := mem_map_or hin k
      have := mem_roomKeys he
      simp only [Database.details, List.mem_append] at hk ⊢
      grind
  · cases h
    exact effect_refl

lemma effect_markDownloaded {roomId localDownloadPath now : String} {file downloadTarget : Fields}
    (h : db.markSmartCacheFileDownloaded ownerUid roomId file downloadTarget localDownloadPath now =
      some db') : Effect ownerUid c db db' := by
  obtain ⟨cachedFileId, -, h⟩ := Option.bind_eq_some_iff.mp h
  split_ifs at h with he
  · obtain ⟨row, hrow, h⟩ := Option.bind_eq_some_iff.mp h
    cases h
    obtain ⟨hu, hroom⟩ := smartCacheRow_room hrow
    have ho : ((db.cachedSmartCacheFiles.put row).delete fun r => r.ownerUid = ownerUid) =
        db.cachedSmartCacheFiles.delete fun r => r.ownerUid = ownerUid :=
      Table.delete_put fun x hx => decide_eq_true ((congrArg Prod.fst hx).trans hu)
    refine effect_of_details rfl rfl ?_ fun k hk => ?_
    · simp only [Database.others, Database.purgeConnectionDisplayData, ho]
    · have hput : ∀ r ∈ (db.cachedSmartCacheFiles.put row).rows,
          r ∈ db.cachedSmartCacheFiles.rows ∨ (r.ownerUid, r.roomId) = (ownerUid, roomId) :=
        fun r hr => (Table.mem_put hr).imp_right fun h => by rw [h, hu, hroom]
      have := mem_map_or hput k
      have := mem_roomKeys he
      simp only [Database.details, List.mem_append] at hk ⊢
      grind
  · cases h
    exact effect_refl

/-- **What any call does.** -/
theorem call_effect (h : db.call v ownerUid c = some db') : Effect ownerUid c db db' := by
  cases c with
  | replaceDevices values =>
    obtain ⟨t, ht, h⟩ := Option.bind_eq_some_iff.mp h
    cases h
    exact effect_replaceDevices ht
  | replaceConnectionState devices rooms => exact effect_replaceConnectionState h
  | enrichConnectionState devices rooms =>
    cases h
    exact effect_enrich
  | removeRoomCascade roomId =>
    cases h
    exact effect_deleteRooms [roomId]
  | removeDeviceCascade deviceId =>
    cases h
    exact effect_removeDeviceCascade deviceId
  | purgeConnectionDisplayData =>
    cases h
    exact effect_purge
  | replaceRooms values => exact effect_replaceRooms h
  | replaceCommands roomId values => exact effect_replaceCommands h
  | replaceProposals roomId values => exact effect_replaceProposals h
  | replaceExecutions roomId values => exact effect_replaceExecutions h
  | saveSnapshot roomId value =>
    cases h
    exact effect_saveSnapshot roomId value
  | replaceSmartCacheFiles roomId values => exact effect_replaceSmartCacheFiles h
  | markSmartCacheFileDownloaded roomId file downloadTarget localDownloadPath now =>
    exact effect_markDownloaded h

end Calls

/-! ### Runs -/

namespace Database

/-- The event is an authoritative replacement that lists the room. -/
def Event.ListsRoom (k : ℕ × String) : Event → Prop
  | .call ownerUid c => k.1 = ownerUid ∧ c.ListsRoom k.2
  | .queue _ => False

def Event.ListsDevice (k : ℕ × String) : Event → Prop
  | .call ownerUid c => k.1 = ownerUid ∧ c.ListsDevice k.2
  | .queue _ => False

end Database

open Database

variable {e : Event} {events : List Event}

lemma step_effect (ownerUid : ℕ) (c : Call) :
    Effect ownerUid c db (db.step v (.call ownerUid c)) := by
  rw [Database.step]
  cases h : db.call v ownerUid c with
  | none => exact effect_refl
  | some db' => exact call_effect h

lemma step_coherent (hc : db.Coherent) : (db.step v e).Coherent := by
  cases e with
  | call ownerUid c => exact (step_effect ownerUid c).coherent hc
  | queue mutationOutbox => exact hc

lemma step_rooms (h : ¬ e.ListsRoom k) (hk : k ∉ db.roomKeys) : k ∉ (db.step v e).roomKeys := by
  cases e with
  | call ownerUid c => exact fun hin => ((step_effect ownerUid c).rooms k hin).elim hk h
  | queue mutationOutbox => exact hk

lemma step_devices (h : ¬ e.ListsDevice k) (hk : k ∉ db.deviceKeys) :
    k ∉ (db.step v e).deviceKeys := by
  cases e with
  | call ownerUid c => exact fun hin => ((step_effect ownerUid c).devices k hin).elim hk h
  | queue mutationOutbox => exact hk

lemma run_coherent (hc : db.Coherent) : (db.run v events).Coherent := by
  induction events generalizing db with
  | nil => exact hc
  | cons e events ih => exact ih (step_coherent hc)

lemma run_rooms (h : ∀ e ∈ events, ¬ e.ListsRoom k) (hk : k ∉ db.roomKeys) :
    k ∉ (db.run v events).roomKeys := by
  induction events generalizing db with
  | nil => exact hk
  | cons e events ih =>
    exact ih (fun e he => h e (List.mem_cons_of_mem _ he)) (step_rooms (h e List.mem_cons_self) hk)

lemma run_devices (h : ∀ e ∈ events, ¬ e.ListsDevice k) (hk : k ∉ db.deviceKeys) :
    k ∉ (db.run v events).deviceKeys := by
  induction events generalizing db with
  | nil => exact hk
  | cons e events ih =>
    exact ih (fun e he => h e (List.mem_cons_of_mem _ he))
      (step_devices (h e List.mem_cons_self) hk)

lemma removed_room (ownerUid : ℕ) (roomId : String) :
    (ownerUid, roomId) ∉ (db.step v (.call ownerUid (.removeRoomCascade roomId))).roomKeys := by
  intro hk
  rw [Database.step, Database.call, Option.getD_some, roomKeys_deleteRoomRows] at hk
  simp at hk

lemma removed_device (ownerUid : ℕ) (deviceId : String) :
    (ownerUid, deviceId) ∉
      (db.step v (.call ownerUid (.removeDeviceCascade deviceId))).deviceKeys := by
  intro hk
  obtain ⟨r, hr, hkey⟩ := List.mem_map.mp hk
  have hne := (Table.mem_delete.mp hr).2
  obtain ⟨ho, hid⟩ := Prod.mk.inj hkey
  simp [ho, hid] at hne

/-- **The display cache stays together**: in every order of calls of any accounts, each row that
belongs to a room belongs to one that is cached for its account; a call leaves the rows of all
other accounts alone; and a room or device that has been removed, or is not cached for another
reason, comes in, with what belongs to it, only by an authoritative replacement that lists it. -/
theorem cache_coherent (v : Reading) (events : List Event) :
    (Database.empty.run v events).Coherent ∧
    (∀ ownerUid c, ((Database.empty.run v events).step v (.call ownerUid c)).others ownerUid =
      (Database.empty.run v events).others ownerUid) ∧
    (∀ ownerUid id,
      (ownerUid, id) ∉ ((Database.empty.run v events).step v
        (.call ownerUid (.removeRoomCascade id))).roomKeys ∧
      (ownerUid, id) ∉ ((Database.empty.run v events).step v
        (.call ownerUid (.removeDeviceCascade id))).deviceKeys) ∧
    ∀ later k,
      (k ∉ (Database.empty.run v events).roomKeys → (∀ e ∈ later, ¬ e.ListsRoom k) →
        k ∉ (Database.empty.run v (events ++ later)).roomKeys ∧
          k ∉ (Database.empty.run v (events ++ later)).details) ∧
      (k ∉ (Database.empty.run v events).deviceKeys → (∀ e ∈ later, ¬ e.ListsDevice k) →
        k ∉ (Database.empty.run v (events ++ later)).deviceKeys) := by
  have hempty : Database.empty.Coherent := nofun
  have happend : ∀ later, Database.empty.run v (events ++ later) =
      (Database.empty.run v events).run v later := fun later => List.foldl_append ..
  refine ⟨run_coherent hempty, fun ownerUid c => (step_effect ownerUid c).others,
    fun ownerUid id => ⟨removed_room ownerUid id, removed_device ownerUid id⟩,
    fun later k => ⟨fun hk hl => ?_, fun hk hl => ?_⟩⟩
  · have hroom : k ∉ (Database.empty.run v (events ++ later)).roomKeys := by
      rw [happend]
      exact run_rooms hl hk
    exact ⟨hroom, fun hin => hroom (run_coherent hempty k hin)⟩
  · rw [happend]
    exact run_devices hl hk

end MouseKeeper.Mobile.DisplayCache
