import MouseKeeper.Storage.Rules

/-!
What can be live in a room: cached files, reservations, transfers and browse requests.

The rows of the four tables are taken together as works. A work has a place, its room and its
device, which it keeps.
-/

namespace MouseKeeper.Storage

open MouseKeeper.ReadCommitted

inductive Kind
  | file | reservation | transfer | browse
  deriving DecidableEq, Repr

/-- The room of a work, and the device that the row of the work names. -/
structure Place where
  kind : Kind
  roomId : ℕ
  deviceId : Option ℕ
  deriving DecidableEq, Repr

inductive Work
  | file (f : CachedFile)
  | reservation (r : Reservation)
  | transfer (t : Transfer)
  | browse (r : Browse)

namespace Work

def place : Work → Place
  | .file f => ⟨.file, f.roomId, none⟩
  | .reservation r => ⟨.reservation, r.roomId, some r.desktopDeviceId⟩
  | .transfer t => ⟨.transfer, t.roomId, some t.desktopDeviceId⟩
  | .browse r => ⟨.browse, r.roomId, some r.desktopDeviceId⟩

/-- The work still holds something of its room. -/
def live : Work → Bool
  | .file f => f.availabilityStatus = .available
  | .reservation r => r.status = .reserved
  | .transfer t => t.status ∈ [TransferStatus.requested, .uploading, .ready]
  | .browse r => r.status = .requested || r.resultPage.isSome

/-- A request waits for the answer of its device. -/
def waiting : Work → Bool
  | .browse r => r.status = .requested
  | _ => false

lemma live_of_waiting {w : Work} (h : w.waiting = true) : w.live = true := by
  cases w with
  | browse r =>
    simp only [waiting, decide_eq_true_eq] at h
    simp [live, h]
  | file | reservation | transfer => cases h

def lock : Work → Lock
  | .file f => .file f.id
  | .reservation r => .reservation r.id
  | .transfer t => .transfer t.id
  | .browse r => .browse r.id

end Work

def Db.works (d : Db) : List Work :=
  d.files.map .file ++ d.reservations.map .reservation ++ d.transfers.map .transfer ++
    d.browses.map .browse

/-- No work is in twice. -/
def Db.Unique (d : Db) : Prop := ∀ w ∈ d.works, ∀ w' ∈ d.works, w.lock = w'.lock → w = w'

/-- How the rows of a table are works. -/
structure WorkTable (α : Type) where
  table : Table α
  work : α → Work
  row : Work → Option α
  row_iff : ∀ w x, row w = some x ↔ w = work x
  mem : ∀ d x, work x ∈ d.works ↔ x ∈ table.rows d
  put : ∀ rows d w, w ∈ (table.put rows d).works ↔
    (∃ x ∈ rows, w = work x) ∨ (w ∈ d.works ∧ row w = none)
  rooms : ∀ rows d, (table.put rows d).rooms = d.rooms
  lock : ∀ x, table.locks (table.id x) = [(work x).lock]
  of_lock : ∀ w x, w.lock = (work x).lock → ∃ y, w = work y

section Tables

lemma mem_works {d : Db} {w : Work} : w ∈ d.works ↔ (∃ f ∈ d.files, w = .file f) ∨
    (∃ r ∈ d.reservations, w = .reservation r) ∨ (∃ t ∈ d.transfers, w = .transfer t) ∨
    ∃ r ∈ d.browses, w = .browse r := by
  simp only [Db.works, List.mem_append, List.mem_map, or_assoc, eq_comm (a := w)]

def fileWorks : WorkTable CachedFile where
  table := files
  work := .file
  row
    | .file f => some f
    | _ => none
  row_iff w x := by cases w <;> simp
  mem d x := by simp [mem_works, files]
  put rows d w := by cases w <;> simp [mem_works, files]
  rooms _ _ := rfl
  lock _ := rfl
  of_lock w x hl := by cases w <;> simp_all [Work.lock]

def reservationWorks : WorkTable Reservation where
  table := reservations
  work := .reservation
  row
    | .reservation r => some r
    | _ => none
  row_iff w x := by cases w <;> simp
  mem d x := by simp [mem_works, reservations]
  put rows d w := by cases w <;> simp [mem_works, reservations]
  rooms _ _ := rfl
  lock _ := rfl
  of_lock w x hl := by cases w <;> simp_all [Work.lock]

def transferWorks : WorkTable Transfer where
  table := transfers
  work := .transfer
  row
    | .transfer t => some t
    | _ => none
  row_iff w x := by cases w <;> simp
  mem d x := by simp [mem_works, transfers]
  put rows d w := by cases w <;> simp [mem_works, transfers]
  rooms _ _ := rfl
  lock _ := rfl
  of_lock w x hl := by cases w <;> simp_all [Work.lock]

def browseWorks : WorkTable Browse where
  table := browses
  work := .browse
  row
    | .browse r => some r
    | _ => none
  row_iff w x := by cases w <;> simp
  mem d x := by simp [mem_works, browses]
  put rows d w := by cases w <;> simp [mem_works, browses]
  rooms _ _ := rfl
  lock _ := rfl
  of_lock w x hl := by cases w <;> simp_all [Work.lock]

end Tables

/-! ### Changes of works -/

/-- The change is one of single works, each of which is locked and keeps its place, and none of which
waits again. -/
structure Change (locks : List Lock) (c : Db → Db) (g : Work → Work) : Prop where
  works : ∀ d w, w ∈ (c d).works ↔ ∃ x ∈ d.works, w = g x
  rooms : ∀ d, (c d).rooms = d.rooms
  touched : ∀ x, g x ≠ x → x.lock ∈ locks
  lock : ∀ x, (g x).lock = x.lock
  place : ∀ x, (g x).place = x.place
  waits : ∀ x, (g x).waiting = true → x.waiting = true

namespace WorkTable

variable {α : Type} (k : WorkTable α)

/-- The works with the values set where the row has one of the identifiers. -/
def lift (ids : List ℕ) (set : α → α) (w : Work) : Work :=
  match k.row w with
  | some x => if k.table.id x ∈ ids then k.work (set x) else w
  | none => w

variable {k} {ids : List ℕ} {set : α → α}

lemma lift_work (x : α) :
    k.lift ids set (k.work x) = if k.table.id x ∈ ids then k.work (set x) else k.work x := by
  rw [lift, (k.row_iff (k.work x) x).mpr rfl]

lemma lift_none {w : Work} (h : k.row w = none) : k.lift ids set w = w := by
  rw [lift, h]

/-- A work of the table is changed, or the work stays. -/
lemma lift_cases (k : WorkTable α) (ids : List ℕ) (set : α → α) (w : Work) : k.lift ids set w = w ∨
    ∃ x, w = k.work x ∧ k.table.id x ∈ ids ∧ k.lift ids set w = k.work (set x) := by
  cases hr : k.row w with
  | none => exact .inl (lift_none hr)
  | some x =>
    obtain rfl := (k.row_iff w x).mp hr
    by_cases hid : k.table.id x ∈ ids
    · exact .inr ⟨x, rfl, hid, by rw [lift_work, if_pos hid]⟩
    · exact .inl (by rw [lift_work, if_neg hid])

/-- The insertion of a row. -/
lemma mem_put_append (k : WorkTable α) (row : α) (d : Db) (w : Work) :
    w ∈ (k.table.put (k.table.rows d ++ [row]) d).works ↔ w ∈ d.works ∨ w = k.work row := by
  rw [k.put]
  constructor
  · rintro (⟨x, hx, rfl⟩ | ⟨hw, -⟩)
    · rcases List.mem_append.mp hx with hx | hx
      · exact .inl ((k.mem d x).mpr hx)
      · rw [List.mem_singleton.mp hx]
        exact .inr rfl
    · exact .inl hw
  · rintro (hw | rfl)
    · cases hr : k.row w with
      | none => exact .inr ⟨hw, rfl⟩
      | some x =>
        obtain rfl := (k.row_iff w x).mp hr
        exact .inl ⟨x, List.mem_append_left _ ((k.mem d x).mp hw), rfl⟩
    · exact .inl ⟨row, List.mem_append_right _ (List.mem_singleton_self row), rfl⟩

/-- The update of the rows with the identifiers. -/
lemma change_set (hlock : ∀ x, (k.work (set x)).lock = (k.work x).lock)
    (hplace : ∀ x, (k.work (set x)).place = (k.work x).place)
    (hwaits : ∀ x, (k.work (set x)).waiting = true → (k.work x).waiting = true) :
    Change (ids.flatMap k.table.locks)
      (fun d => k.table.put (setRows k.table.id ids set (k.table.rows d)) d) (k.lift ids set) where
  works d w := by
    rw [k.put]
    constructor
    · rintro (⟨y, hy, rfl⟩ | ⟨hw, hr⟩)
      · obtain ⟨x, hx, rfl⟩ := mem_setRows.mp hy
        refine ⟨k.work x, (k.mem d x).mpr hx, ?_⟩
        rw [lift_work]
        split <;> rfl
      · exact ⟨w, hw, (lift_none hr).symm⟩
    · rintro ⟨x, hx, rfl⟩
      cases hr : k.row x with
      | none =>
        rw [lift_none hr]
        exact .inr ⟨hx, hr⟩
      | some a =>
        obtain rfl := (k.row_iff x a).mp hr
        have ha := (k.mem d a).mp hx
        rw [lift_work]
        split
        · exact .inl ⟨set a, mem_setRows_of_mem ha ‹_›, rfl⟩
        · exact .inl ⟨a, mem_setRows_of_not_mem ha ‹_›, rfl⟩
  rooms d := k.rooms _ d
  touched w hw := by
    rcases lift_cases k ids set w with h | ⟨x, rfl, hid, -⟩
    · exact absurd h hw
    · refine List.mem_flatMap.mpr ⟨k.table.id x, hid, ?_⟩
      rw [k.lock]
      exact List.mem_singleton_self _
  lock w := by
    rcases lift_cases k ids set w with h | ⟨x, rfl, -, h⟩
    · rw [h]
    · rw [h, hlock]
  place w := by
    rcases lift_cases k ids set w with h | ⟨x, rfl, -, h⟩
    · rw [h]
    · rw [h, hplace]
  waits w hw := by
    rcases lift_cases k ids set w with h | ⟨x, rfl, -, h⟩
    · rwa [h] at hw
    · rw [h] at hw
      exact hwaits x hw

/-- Where no work is in twice, the update reaches the works that meet its condition. -/
lemma lift_matching (k : WorkTable α) (cond : α → Bool) (set : α → α) {v : Db} (hu : v.Unique)
    {w : Work} (hw : w ∈ v.works) : k.lift (k.table.ids cond v) set w = w ∨
      ∃ x ∈ k.table.rows v, cond x = true ∧ w = k.work x ∧
        k.lift (k.table.ids cond v) set w = k.work (set x) := by
  rcases lift_cases k (k.table.ids cond v) set w with h | ⟨x, rfl, hid, h⟩
  · exact .inl h
  · obtain ⟨b, hb, hbid⟩ := List.mem_map.mp hid
    obtain ⟨hbr, hbc⟩ := List.mem_filter.mp hb
    have hlocks : [(k.work b).lock] = [(k.work x).lock] := by rw [← k.lock, ← k.lock, hbid]
    have hbx : k.work b = k.work x :=
      hu _ ((k.mem v b).mpr hbr) _ hw (List.singleton_inj.mp hlocks)
    have hx : x = b := by
      have hrow := (k.row_iff (k.work x) x).mpr rfl
      rw [← hbx, (k.row_iff (k.work b) b).mpr rfl, Option.some.injEq] at hrow
      exact hrow.symm
    exact .inr ⟨x, hx ▸ hbr, hx ▸ hbc, rfl, h⟩

lemma lift_of_matching {v : Db} {cond : α → Bool} {x : α} (hx : x ∈ k.table.rows v)
    (hc : cond x = true) : k.lift (k.table.ids cond v) set (k.work x) = k.work (set x) := by
  rw [lift_work, if_pos]
  exact List.mem_map_of_mem (List.mem_filter.mpr ⟨hx, hc⟩)

end WorkTable

lemma Change.none : Change [] (fun d => d) id where
  works d w := by simp
  rooms _ := rfl
  touched w hw := absurd rfl hw
  lock _ := rfl
  place _ := rfl
  waits _ h := h

/-- A change of what is not a work. -/
lemma Change.aside {c : Db → Db} (hw : ∀ d, (c d).works = d.works) (hr : ∀ d, (c d).rooms = d.rooms)
    (locks : List Lock) : Change locks c id where
  works d w := by simp [hw]
  rooms := hr
  touched w hw := absurd rfl hw
  lock _ := rfl
  place _ := rfl
  waits _ h := h

end MouseKeeper.Storage
