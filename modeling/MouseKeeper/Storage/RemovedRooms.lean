import MouseKeeper.Storage.LiveRequests

/-!
A room that is not active holds nothing live.

A removal ends the works of its rooms table by table. What has ended stays so while the removal holds
the whole locks of the rooms.
-/

namespace MouseKeeper.Storage.RemovedRooms

open MouseKeeper.ReadCommitted
open MouseKeeper.Server (Device Room)

variable {n : ℕ}

/-! ### Removals -/

section Removal

open Connections (Scope)

variable {Q R : Type} {q : Q} {s : Scope} {ids : List ℕ} {held held' locks : List Lock}
  {f c : Db → Db} {d d' : Db} {e : Effect} {i : Fin n}

lemma Exclusive.shared {roomId : ℕ} (i : Fin n) (h : Exclusive n held roomId) :
    Shared n held roomId :=
  ⟨i, i.isLt, h i i.isLt⟩

lemma exclusive_of_mem {roomId : ℕ} (h : ∀ l ∈ Backend.exclusive ⟨n, i⟩ (.room roomId), l ∈ held) :
    Exclusive n held roomId :=
  fun _ hk => h _ (List.mem_map_of_mem (List.mem_range.mpr hk))

/-- The rooms that go: their whole locks are held, and they are in the scope. -/
structure Scoped (n : ℕ) (held : List Lock) (d : Db) (s : Scope) (ids : List ℕ) : Prop where
  locked : ∀ id ∈ ids, Exclusive n held id
  listed : ∀ id ∈ ids, id ∈ s.roomIds
  device : ∀ deviceId ∈ s.deviceId, ∀ id ∈ ids, ∃ r ∈ d.rooms, r.id = id ∧ r.desktopDeviceId = deviceId

lemma Scoped.rely (i : Fin n) (h : Scoped n held d s ids) (hd : Allowed n held d d')
    (hs : held ⊆ held') : Scoped n held' d' s ids where
  locked id hid := (h.locked id hid).mono hs
  listed := h.listed
  device deviceId hdev id hid := by
    obtain ⟨r, hr, rfl, hrd⟩ := h.device deviceId hdev id hid
    exact ⟨r, hd.shared r hr ((h.locked _ hid).shared i), rfl, hrd⟩

/-- What is live in a room that goes is covered by the scope. -/
lemma Scoped.covers (h : Scoped n held d s ids) (hi : (d.rooms.map (·.id)).Nodup) {p : Place}
    (ha : Active d p) (hp : p.roomId ∈ ids) {deviceId : ℕ} (hdev : p.deviceId = some deviceId) :
    s.covers deviceId p.roomId = true := by
  rw [Scope.covers]
  split
  · rename_i id hid
    obtain ⟨r, hr, hrid, -, hrd⟩ := ha
    obtain ⟨r', hr', hrid', hrd'⟩ := h.device id hid _ hp
    obtain rfl := eq_of_id_eq hi hr hr' (hrid.trans hrid'.symm)
    exact decide_eq_true ((hrd deviceId hdev).symm.trans hrd')
  · exact decide_eq_true (h.listed _ hp)

/-- The works of the kinds have ended in the rooms that go. -/
structure Cancelling (n : ℕ) (held : List Lock) (f : Db → Db) (d : Db) (e : Effect) (s : Scope)
    (ids : List ℕ) (kinds : List Kind) : Prop where
  effects : Effects n held f d e
  removed : e.removed = []
  new : e.new = []
  scope : Scoped n held d s ids
  ends : Ends n held d Work.live e.change fun p => p.roomId ∈ ids ∧ p.kind ∈ kinds

variable {kinds : List Kind}

lemma Cancelling.rely (i : Fin n) (h : Cancelling n held f d e s ids kinds)
    (hd : Allowed n held d d') (hs : held ⊆ held') :
    Cancelling n held' f d' e s ids kinds where
  effects := h.effects.rely hd hs
  removed := h.removed
  new := h.new
  scope := h.scope.rely i hd hs
  ends := h.ends.rely closed_live h.effects.touched hd hs

lemma Cancelling.rooms (h : Cancelling n held f d e s ids kinds) (x : Db) :
    (f x).rooms = x.rooms := by
  rw [h.effects.rooms, h.removed]
  simp [setRows]

lemma Cancelling.scoped_view (h : Cancelling n held f d e s ids kinds) :
    Scoped n held (f d) s ids :=
  ⟨h.scope.locked, h.scope.listed, fun v hv id hid => h.rooms d ▸ h.scope.device v hv id hid⟩

/-- What fails the test behind the change of the call, fails it with the call. -/
lemma Effects.ends_after (locks : List Lock) {g : Work → Work} {test : Work → Bool} {P : Place → Prop}
    (h : Effects n held f d e) (hp : ∀ p, P p → Exclusive n held p.roomId)
    (hg : ∀ w ∈ (f d).works, P w.place → test (g w) = false) :
    Ends n (locks ++ held) d test (e.after g).change P := by
  refine ⟨fun p hP => (hp p hP).mono (List.subset_append_right _ _), fun w hw hP => ?_⟩
  exact hg (e.change w) ((h.works d _).mpr (.inl ⟨w, hw, rfl⟩)) (by rwa [h.place])

/-- What fails the test goes on to fail it. -/
lemma Cancelling.ends_change (locks : List Lock) {g : Work → Work} {test : Work → Bool} {P : Place → Prop}
    (h : Cancelling n held f d e s ids kinds) (hE : Ends n held d test e.change P)
    (hg : ∀ w ∈ (f d).works, test (g w) = true → test w = true) :
    Ends n (locks ++ held) d test (e.after g).change P := by
  refine h.effects.ends_after locks hE.1 fun w hw hp => ?_
  rcases (h.effects.works d w).mp hw with ⟨x, hx, rfl⟩ | hw'
  · rw [h.effects.place] at hp
    by_contra hl
    rw [Bool.not_eq_false] at hl
    have hx' := hE.2 x hx hp
    rw [hg _ hw hl] at hx'
    cases hx'
  · rw [h.new] at hw'
    cases hw'

/-- A change of works after which none is live that was not. -/
lemma Cancelling.change {g : Work → Work} (h : Cancelling n held f d e s ids kinds)
    (hc : Change locks c g) (hlive : ∀ w ∈ (f d).works, (g w).live = true → w.live = true) :
    Cancelling n (locks ++ held) (fun x => c (f x)) d (e.after g) s ids kinds where
  effects := h.effects.change h.removed hc fun w hw hl => .inl (hlive w hw hl)
  removed := h.removed
  new := by simp [Effect.after, h.new]
  scope := ⟨fun id hid => (h.scope.locked id hid).mono (List.subset_append_right _ _),
    h.scope.listed, h.scope.device⟩
  ends := h.ends_change locks h.ends hlive

lemma Cancelling.cons {k : Kind} (h : Cancelling n held f d e s ids kinds)
    (hk : Ends n held d Work.live e.change fun p => p.roomId ∈ ids ∧ p.kind = k) :
    Cancelling n held f d e s ids (k :: kinds) where
  effects := h.effects
  removed := h.removed
  new := h.new
  scope := h.scope
  ends := by
    refine ⟨fun p hp => h.scope.locked _ hp.1, fun w hw hp => ?_⟩
    rcases List.mem_cons.mp hp.2 with hkind | hkind
    · exact hk.2 w hw ⟨hp.1, hkind⟩
    · exact h.ends.2 w hw ⟨hp.1, hkind⟩

/-- A statement that writes no work and no room. -/
lemma Effects.aside (h : Effects n held f d e) (hw : ∀ x, (c x).works = x.works)
    (hr : ∀ x, (c x).rooms = x.rooms) : Effects n held (fun x => c (f x)) d e :=
  { h with
    works := fun x w => by rw [hw, h.works]
    rooms := fun x => (hr _).trans (h.rooms x) }

lemma Cancelling.aside (h : Cancelling n held f d e s ids kinds)
    (hw : ∀ x, (c x).works = x.works) (hr : ∀ x, (c x).rooms = x.rooms) :
    Cancelling n held (fun x => c (f x)) d e s ids kinds :=
  { h with effects := h.effects.aside hw hr }

/-- What is left of the removal keeps the protocol when the kinds have ended. -/
def Cancels (n : ℕ) (q : Q) (s : Scope) (ids : List ℕ) (kinds : List Kind)
    (t : Storage.Program R) : Prop :=
  ∀ held f d e, Cancelling n held f d e s ids kinds → Keeps n q t held f d

lemma cancels_clock {next : ℕ → Storage.Program R} (i : Fin n)
    (h : ∀ now, Cancels n q s ids kinds (next now)) : Cancels n q s ids kinds (clock next) :=
  fun _ _ _ _ hc => Storage.keeps_clock fun _ hd _ =>
    h _ _ _ _ _ (hc.rely i hd (List.Subset.refl _))

lemma cancels_modify {next : Storage.Program R} (i : Fin n) (hw : ∀ x, (c x).works = x.works)
    (hr : ∀ x, (c x).rooms = x.rooms) (h : Cancels n q s ids kinds next) :
    Cancels n q s ids kinds (modify c next) :=
  fun _ _ _ _ hc => Storage.keeps_modify fun _ hd _ =>
    h _ _ _ _ ((hc.rely i hd (List.Subset.refl _)).aside hw hr)

section Update

variable {α : Type} (k : WorkTable α) {cond : α → Bool} {set : α → α}
  {next : List α → Storage.Program R} {kind : Kind} {test : Work → Bool}

/-- The update reaches the works of the kind that pass the test in the rooms that go. -/
structure Reaches (n : ℕ) (s : Scope) (ids : List ℕ) (k : WorkTable α) (kind : Kind)
    (test : Work → Bool) (cond : α → Bool) : Prop where
  kind : ∀ w : Work, w.place.kind = kind → ∃ x, w = k.work x
  live : ∀ w, test w = true → w.live = true
  cond : ∀ v held, Orderly v → Scoped n held v s ids → ∀ x, test (k.work x) = true →
    (k.work x).place.roomId ∈ ids → Active v (k.work x).place → cond x = true

/-- The update makes the test fail. -/
lemma Cancelling.ends_update (locks : List Lock) (h : Cancelling n held f d e s ids kinds) (hi : Orderly d)
    (hk : Reaches n s ids k kind test cond) (hset : ∀ x, test (k.work (set x)) = false) :
    Ends n (locks ++ held) d test (e.after (k.lift (k.table.ids cond (f d)) set)).change
      fun p => p.roomId ∈ ids ∧ p.kind = kind := by
  refine h.effects.ends_after locks (fun p hp => h.scope.locked _ hp.1) fun w hw hp => ?_
  have hv := h.effects.orderly hi
  obtain ⟨x, rfl⟩ := hk.kind w hp.2
  by_contra hl
  rw [Bool.not_eq_false] at hl
  rcases WorkTable.lift_cases k (k.table.ids cond (f d)) set (k.work x) with heq | ⟨y, -, -, heq⟩
  · rw [heq] at hl
    have ha := hv.active _ hw (hk.live _ hl)
    have hx := hk.cond (f d) held hv h.scoped_view x hl hp.1 ha
    rw [WorkTable.lift_of_matching ((k.mem _ x).mp hw) hx] at heq
    rw [← heq, hset] at hl
    cases hl
  · rw [heq, hset] at hl
    cases hl

/-- An update that ends the live works of one kind in the scope. -/
lemma cancels_update (i : Fin n) (hk : Reaches n s ids k kind Work.live cond)
    (hlock : ∀ x, (k.work (set x)).lock = (k.work x).lock)
    (hplace : ∀ x, (k.work (set x)).place = (k.work x).place)
    (hset : ∀ x, (k.work (set x)).live = false)
    (h : ∀ rows, Cancels n q s ids (kind :: kinds) (next rows)) :
    Cancels n q s ids kinds (k.table.update cond set next) := by
  refine fun held f d e hc => Storage.keeps_update fun d' hd hi => ?_
  have hc' := hc.rely i hd (List.Subset.refl _)
  have hwaits : ∀ x, (k.work (set x)).waiting = true → (k.work x).waiting = true := by
    intro x hx
    have hl := Work.live_of_waiting hx
    rw [hset] at hl
    cases hl
  refine h _ _ _ _ _ ((hc'.change (WorkTable.change_set hlock hplace hwaits)
    fun w hw hl => ?_).cons (hc'.ends_update k _ hi hk hset))
  rcases WorkTable.lift_cases k _ set w with heq | ⟨x, -, -, heq⟩
  · rwa [heq] at hl
  · rw [heq, hset] at hl
    cases hl

end Update

lemma reaches_files : Reaches n s ids fileWorks .file Work.live
    fun f => f.roomId ∈ s.roomIds && f.availabilityStatus = .available where
  kind w hw := by
    cases w with
    | file f => exact ⟨f, rfl⟩
    | reservation | transfer | browse => cases hw
  live _ hl := hl
  cond _ _ _ hs _ hl hroom _ :=
    Bool.and_eq_true_iff.mpr ⟨decide_eq_true (hs.listed _ hroom), hl⟩

lemma reaches_reservations : Reaches n s ids reservationWorks .reservation Work.live
    fun r => s.covers r.desktopDeviceId r.roomId && r.status = .reserved where
  kind w hw := by
    cases w with
    | reservation r => exact ⟨r, rfl⟩
    | file | transfer | browse => cases hw
  live _ hl := hl
  cond _ _ hi hs _ hl hroom ha :=
    Bool.and_eq_true_iff.mpr ⟨hs.covers hi.rooms ha hroom rfl, hl⟩

lemma reaches_transfers : Reaches n s ids transferWorks .transfer Work.live
    fun t => s.covers t.desktopDeviceId t.roomId &&
      decide (t.status ∈ [TransferStatus.requested, .uploading, .ready]) where
  kind w hw := by
    cases w with
    | transfer t => exact ⟨t, rfl⟩
    | file | reservation | browse => cases hw
  live _ hl := hl
  cond _ _ hi hs _ hl hroom ha :=
    Bool.and_eq_true_iff.mpr ⟨hs.covers hi.rooms ha hroom rfl, hl⟩

lemma browse_of_kind (w : Work) (hw : w.place.kind = .browse) : ∃ r, w = browseWorks.work r := by
  cases w with
  | browse r => exact ⟨r, rfl⟩
  | file | reservation | transfer => cases hw

lemma reaches_waiting : Reaches n s ids browseWorks .browse Work.waiting
    fun r => s.covers r.desktopDeviceId r.roomId && r.status = .requested where
  kind := browse_of_kind
  live _ := Work.live_of_waiting
  cond _ _ hi hs _ hl hroom ha :=
    Bool.and_eq_true_iff.mpr ⟨hs.covers hi.rooms ha hroom rfl, hl⟩

/-- A live work that does not wait. -/
def answered (w : Work) : Bool := w.live && !w.waiting

lemma live_eq_false {w : Work} (ha : answered w = false) (hw : w.waiting = false) :
    w.live = false := by
  rwa [answered, hw, Bool.not_false, Bool.and_true] at ha

lemma reaches_answered : Reaches n s ids browseWorks .browse answered
    fun r => s.covers r.desktopDeviceId r.roomId where
  kind := browse_of_kind
  live _ hl := (Bool.and_eq_true_iff.mp hl).1
  cond _ _ hi hs _ _ hroom ha := hs.covers hi.rooms ha hroom rfl

lemma cancels_files (i : Fin n) {next : Storage.Program R}
    (h : Cancels n q s ids [.file] next) :
    Cancels n q s ids [] (Connections.cancelFiles s next) := by
  rw [Connections.cancelFiles]
  split
  · rename_i hnil
    intro held f d e hc
    refine h held f d e (hc.cons ⟨fun p hp => hc.scope.locked _ hp.1, fun w hw hp => ?_⟩)
    have hmem := hc.scope.listed _ hp.1
    rw [hnil] at hmem
    cases hmem
  · exact cancels_update fileWorks i reaches_files (fun _ => rfl) (fun _ => rfl) (fun _ => rfl)
      fun _ => cancels_clock i fun _ => cancels_modify i (fun _ => rfl) (fun _ => rfl) h

lemma cancels_reservations (i : Fin n) {next : Storage.Program R}
    (h : Cancels n q s ids (.reservation :: kinds) next) :
    Cancels n q s ids kinds (Connections.cancelReservations s next) :=
  cancels_update reservationWorks i reaches_reservations (fun _ => rfl) (fun _ => rfl)
    (fun _ => rfl) fun _ => cancels_modify i (fun _ => rfl) (fun _ => rfl) h

lemma cancels_transfers (i : Fin n) {next : Storage.Program R}
    (h : Cancels n q s ids (.transfer :: kinds) next) :
    Cancels n q s ids kinds (Connections.cancelTransfers s next) :=
  cancels_clock i fun _ => cancels_update transferWorks i reaches_transfers (fun _ => rfl)
    (fun _ => rfl) (fun _ => rfl) fun _ => cancels_modify i (fun _ => rfl) (fun _ => rfl) h

lemma failed_change (code : BrowseFailureCode) (ids : List ℕ) : Change (ids.flatMap browses.locks)
    (fun d => browses.put (setRows browses.id ids (Connections.failedBrowse code) (browses.rows d)) d)
    (browseWorks.lift ids (Connections.failedBrowse code)) :=
  browseWorks.change_set (fun _ => rfl) (fun _ => rfl) fun _ hq => by cases hq

lemma cleared_change (ids : List ℕ) : Change (ids.flatMap browses.locks)
    (fun d => browses.put (setRows browses.id ids Connections.cleared (browses.rows d)) d)
    (browseWorks.lift ids Connections.cleared) :=
  browseWorks.change_set (fun _ => rfl) (fun _ => rfl) fun _ hq => hq

lemma live_of_failed {code : BrowseFailureCode} {ids : List ℕ} {w : Work}
    (h : (browseWorks.lift ids (Connections.failedBrowse code) w).live = true) : w.live = true := by
  rcases WorkTable.lift_cases browseWorks ids (Connections.failedBrowse code) w with
    heq | ⟨x, -, -, heq⟩
  · rwa [heq] at h
  · rw [heq] at h
    cases h

lemma live_of_cleared {ids : List ℕ} {w : Work}
    (h : (browseWorks.lift ids Connections.cleared w).live = true) : w.live = true := by
  rcases WorkTable.lift_cases browseWorks ids Connections.cleared w with heq | ⟨x, rfl, -, heq⟩
  · rwa [heq] at h
  · rw [heq] at h
    refine Work.live_of_waiting ?_
    simpa [browseWorks, Work.live, Work.waiting, Connections.cleared] using h

/-- Without a request that waits, the second update takes away all that is live. -/
lemma Cancelling.ends_cleared (h : Cancelling n held f d e s ids kinds) (hi : Orderly d)
    (hw : Ends n held d Work.waiting e.change fun p => p.roomId ∈ ids ∧ p.kind = .browse) :
    Ends n (locks ++ held) d Work.live (e.after (browseWorks.lift
      (browses.ids (fun r => s.covers r.desktopDeviceId r.roomId) (f d)) Connections.cleared)).change
        fun p => p.roomId ∈ ids ∧ p.kind = .browse := by
  have hwaiting := h.ends_change locks hw fun w _ => (cleared_change
    (browses.ids (fun r => s.covers r.desktopDeviceId r.roomId) (f d))).waits w
  have hanswered := h.ends_update browseWorks locks hi reaches_answered fun x =>
    show answered (browseWorks.work (Connections.cleared x)) = false by
      simp [answered, browseWorks, Work.live, Work.waiting, Connections.cleared]
  exact ⟨hwaiting.1, fun w hmem hp =>
    live_eq_false (hanswered.2 w hmem hp) (hwaiting.2 w hmem hp)⟩

/-- The first update ends the waiting, and the second one takes the results away. -/
lemma cancels_browses (i : Fin n) {next : Storage.Program R}
    (h : Cancels n q s ids (.browse :: kinds) next) :
    Cancels n q s ids kinds (Connections.cancelBrowses s next) := by
  refine fun held f d e hc => Storage.keeps_update fun d₁ hd₁ hi₁ =>
    Storage.keeps_update fun d₂ hd₂ hi₂ => ?_
  have hc₁ := hc.rely i hd₁ (List.Subset.refl _)
  have hc₂ := (hc₁.change (failed_change s.browseFailureCode _) fun w _ => live_of_failed).rely i
    hd₂ (List.Subset.refl _)
  have hwaiting := (hc₁.ends_update browseWorks _ hi₁ reaches_waiting (fun _ => rfl)).rely
    closed_waiting hc₂.effects.touched hd₂ (List.Subset.refl _)
  exact h _ _ _ _ ((hc₂.change (cleared_change _) fun w _ => live_of_cleared).cons
    (hc₂.ends_cleared hi₂ hwaiting))

/-- All works of the scope have ended. -/
lemma cancels_resources (i : Fin n) {next : Storage.Program R}
    (h : Cancels n q s ids [.browse, .transfer, .reservation, .file] next) :
    Cancels n q s ids [] (Connections.cancelResources s next) :=
  cancels_files i <| cancels_reservations i <| cancels_transfers i <| cancels_browses i h

/-- The rooms in which all works have ended may go. -/
lemma Cancelling.remove (h : Cancelling n held f d e s ids [.browse, .transfer, .reservation, .file])
    {gone : List ℕ} (hgone : gone ⊆ ids) :
    Effects n held (fun x => { f x with rooms := setRows Room.id gone Connections.removed (f x).rooms })
      d { e with removed := gone } :=
  { h.effects with
    rooms := fun x => by rw [h.rooms]
    comes := fun w hw => absurd hw (by simp [h.new])
    ends := ⟨fun p hp => h.scope.locked _ (hgone hp), fun w hw hp =>
      h.ends.2 w hw ⟨hgone hp, by cases w.place.kind <;> simp⟩⟩ }

/-- The update of the rooms that go. -/
lemma cancels_rooms (i : Fin n) {cond : Room → Bool} {next : List Room → Storage.Program R}
    (hcond : ∀ r, cond r = true → r.id ∈ ids)
    (h : ∀ rows held f d e, Effects n held f d e → Keeps n q (next rows) held f d) :
    Cancels n q s ids [.browse, .transfer, .reservation, .file]
      ((Connections.rooms ⟨n, i⟩).update cond Connections.removed next) := by
  refine fun held f d e hc => Storage.keeps_update fun d' hd hi => ?_
  have hc' := hc.rely i hd (List.subset_append_right
    (((Connections.rooms ⟨n, i⟩).ids cond (f d')).flatMap (Connections.rooms ⟨n, i⟩).locks) held)
  refine h _ _ _ _ _ (hc'.remove fun id hid => ?_)
  obtain ⟨r, hr, rfl⟩ := List.mem_map.mp hid
  exact hcond r (List.mem_filter.mp hr).2

/-! ### removeRoom and revokeDevice -/

open Connections (Actor RemoveRoom RevokeDevice)

/-- What is left of the removal when the rooms have gone. -/
def Ending (n : ℕ) (q : Q) (t : Storage.Program R) : Prop :=
  ∀ held f d e, Effects n held f d e → Keeps n q t held f d

lemma ending_modify {next : Storage.Program R} (hw : ∀ x, (c x).works = x.works)
    (hr : ∀ x, (c x).rooms = x.rooms) (h : Ending n q next) : Ending n q (modify c next) :=
  fun held _ _ e he => Storage.keeps_modify fun d' hd _ =>
    h held _ d' e ((he.rely hd (List.Subset.refl _)).aside hw hr)

lemma keeps_withReceipt {actor : Actor} {key : String} {operation : Operation} {aggregateId : ℕ}
    {done : R} {mutate : Storage.Program R → Storage.Program R}
    (h : ∀ p, Ending n q p → ∀ held d, Keeps n q (mutate p) held id d) (d : Db) :
    Keeps n q (Connections.withReceipt actor key operation aggregateId done mutate) [] id d := by
  refine Storage.keeps_lock fun d₁ _ _ => Storage.keeps_select fun d₂ _ _ => ?_
  split
  · split
    · exact True.intro
    · exact keeps_answer (.none _ d₂)
  · refine h _ ?_ _ d₂
    exact ending_modify (fun _ => rfl) (fun _ => rfl) fun _ _ _ _ he => keeps_answer he

lemma Cancelling.none (h : Scoped n held d s ids) : Cancelling n held id d .none s ids [] where
  effects := .none held d
  removed := rfl
  new := rfl
  scope := h
  ends := ⟨fun _ hp => h.locked _ hp.1, fun _ _ hp => absurd hp.2 List.not_mem_nil⟩

lemma keeps_removeRoom (r : RemoveRoom) (done : R) (d : Db) :
    Keeps n q (Connections.removeRoom ⟨n, i⟩ r done) [] id d := by
  refine keeps_withReceipt (fun p hp held d₁ => Storage.keeps_select fun d₂ _ _ => ?_) d
  split
  · exact True.intro
  split
  · exact True.intro
  refine Storage.keeps_selectFor fun d₃ _ _ => ?_
  split
  · exact True.intro
  refine Storage.keeps_selectFor fun d₄ _ _ => ?_
  split
  · exact True.intro
  rename_i room hroom
  have hid := List.find?_some hroom
  simp only [Bool.and_eq_true, decide_eq_true_eq] at hid
  rw [hroom]
  have hlocked : ∀ held, Exclusive n (Backend.exclusive ⟨n, i⟩ (.room room.id) ++ held) r.roomId :=
    fun held => hid.1.1.1 ▸ exclusive_of_mem fun l hl => List.mem_append_left _ hl
  have hgone {next : List Room → Storage.Program R} (h : ∀ rows, Ending n q (next rows)) :
      Cancels n q ⟨none, [r.roomId], .outsideManagedRoot⟩ [r.roomId]
        [.browse, .transfer, .reservation, .file] ((Connections.rooms ⟨n, i⟩).update
          (fun x => x.id = r.roomId && x.active) Connections.removed next) :=
    cancels_rooms i (fun x hx =>
      List.mem_singleton.mpr (of_decide_eq_true (Bool.and_eq_true_iff.mp hx).1)) h
  refine cancels_resources i (hgone fun rows => ?_) _ _ _ _ (.none ⟨fun id hmem => ?_,
    fun id hmem => hmem, fun _ hdev => by cases hdev⟩)
  · split
    · exact fun _ _ _ _ _ => True.intro
    · exact hp
  · exact List.mem_singleton.mp hmem ▸ hlocked _

/-- The device goes, and then its rooms. -/
lemma cancels_device (i : Fin n) {cond : Device → Bool} {set : Device → Device}
    {next : List Device → Storage.Program R} (h : ∀ rows, Cancels n q s ids kinds (next rows)) :
    Cancels n q s ids kinds ((Connections.devices ⟨n, i⟩).update cond set next) := by
  refine fun held f d e hc => Storage.keeps_update fun d' hd _ => ?_
  exact h _ _ _ _ _ ((hc.rely i hd (List.subset_append_right _ _)).aside
    (c := fun x => (Connections.devices ⟨n, i⟩).put (setRows Device.id
      ((Connections.devices ⟨n, i⟩).ids cond (f d')) set x.devices) x) (fun _ => rfl) fun _ => rfl)

lemma cancels_removeRooms (i : Fin n) {activeRooms : List Room} {next : Storage.Program R}
    (h : Ending n q next) :
    Cancels n q s (activeRooms.map (·.id)) [.browse, .transfer, .reservation, .file]
      (Connections.removeRooms ⟨n, i⟩ activeRooms next) := by
  rw [Connections.removeRooms]
  split
  · exact fun held _ _ e hc => h held _ _ e hc.effects
  · exact cancels_rooms i (fun r hr => of_decide_eq_true (Bool.and_eq_true_iff.mp hr).1)
      fun _ => h

lemma keeps_revokeDevice (r : RevokeDevice) (done : R) (d : Db) :
    Keeps n q (Connections.revokeDevice ⟨n, i⟩ r done) [] id d := by
  refine keeps_withReceipt (fun p hp held d₁ => Storage.keeps_selectFor fun d₂ _ _ => ?_) d
  split
  · exact True.intro
  refine Storage.keeps_selectAllFor fun d₃ _ _ => ?_
  generalize hrooms : (Connections.rooms ⟨n, i⟩).matching (fun x => x.desktopDeviceId = r.deviceId)
    (id d₃) = deviceRooms
  have hgone {s : Scope} {cond : Device → Bool} {set : Device → Device}
      {next : List Device → Storage.Program R}
      (h : ∀ rows, Cancels n q s ((deviceRooms.filter (·.active)).map (·.id))
        [.browse, .transfer, .reservation, .file] (next rows)) :
      Cancels n q s ((deviceRooms.filter (·.active)).map (·.id))
        [.browse, .transfer, .reservation, .file]
        ((Connections.devices ⟨n, i⟩).update cond set next) := cancels_device i h
  refine cancels_resources i (hgone fun rows => ?_) _ _ _ _
    (.none ⟨fun id hid => ?_, fun id hid => ?_, fun deviceId hdev id hid => ?_⟩)
  · split
    · exact fun _ _ _ _ _ => True.intro
    · exact cancels_removeRooms i hp
  all_goals
    subst hrooms
    obtain ⟨x, hx, rfl⟩ := List.mem_map.mp hid
    have hx' := (List.mem_filter.mp hx).1
  · exact exclusive_of_mem fun l hl =>
      List.mem_append_left _ (List.mem_flatMap.mpr ⟨x.id, List.mem_map_of_mem hx', hl⟩)
  · exact List.mem_map_of_mem hx'
  · obtain ⟨hmem, hcond⟩ := List.mem_filter.mp hx'
    exact ⟨x, hmem, rfl, (of_decide_eq_true hcond).trans (Option.some.inj hdev)⟩

end Removal

/-! ### All requests -/

inductive Request
  | cache (q : SmartCache.Request)
  | transfer (q : Lifecycle.Request)
  | browse (q : Browses.Request)

inductive Response
  | cache (r : SmartCache.Response)
  | transfer (r : Transfers.Response)
  | browse (r : Option Browse)

structure Environment where
  cache : SmartCache.Environment
  transfers : Transfers.Environment

/-- A request with the connection that serves it. -/
def body (env : Environment) (n : ℕ) : Fin n × Request → Storage.Program Response
  | (i, .cache q) => (SmartCache.body env.cache ⟨n, i⟩ q).map .cache
  | (i, .transfer q) => (Lifecycle.body env.transfers (⟨n, i⟩, q)).map .transfer
  | (i, .browse q) => (Browses.body ⟨n, i⟩ q).map .browse

section Kept

variable {Q R R' : Type} {q : Q} {held : List Lock} {f : Db → Db} {d : Db}

lemma Keeps.map {t : Storage.Program R} (h : Keeps n q t held f d) (g : R → R') :
    Keeps n q (t.map g) held f d := by
  induction t generalizing held f d with
  | answer r =>
    cases r with
    | error _ => exact True.intro
    | ok r =>
      intro d' hd hi hok
      obtain ⟨hinv, hg, -⟩ := h d' hd hi hok
      exact ⟨hinv, hg, True.intro⟩
  | stmt locks change next ih => exact fun d' hd hi hok => ih _ (h d' hd hi hok)

lemma keeps_cache (env : SmartCache.Environment) (i : Fin n) (r : SmartCache.Request) (d : Db) :
    Keeps n q (SmartCache.body env ⟨n, i⟩ r) [] id d := by
  have hh : ∀ {t : SmartCache.Program}, Harmless t → Keeps n q t [] id d :=
    fun ht => ht.keeps (.none [] d) rfl
  cases r with
  | getPolicy r => exact hh (harmless_getPolicy r)
  | updatePolicy r => exact hh (harmless_updatePolicy r)
  | submit r => exact keeps_submit env r
  | complete r => exact keeps_complete env r
  | cancelReservation r => exact hh (harmless_cancelReservation r)
  | markStale r => exact hh (harmless_markStale r)
  | remove r => exact hh (harmless_remove r)
  | recordAccess r => exact hh (harmless_recordAccess r)
  | expire id => exact hh (harmless_expireReservation id)

lemma keeps_transfer (env : Transfers.Environment) (i : Fin n) (r : Lifecycle.Request) (d : Db) :
    Keeps n q (Lifecycle.body env (⟨n, i⟩, r)) [] id d := by
  have hh : ∀ {t : Transfers.Program}, Harmless t → Keeps n q t [] id d :=
    fun ht => ht.keeps (.none [] d) rfl
  cases r with
  | create r => exact keeps_createTransfer env r
  | uploadTarget r => exact hh (harmless_uploadTarget env r)
  | complete r => exact hh (harmless_completeTransfer r)
  | fail r => exact hh (harmless_failTransfer r)
  | ack r => exact hh (harmless_ack r)
  | cancel r => exact hh (harmless_cancelTransfer r)
  | expire id => exact hh (harmless_expireTransfer id)
  | removeRoom r => exact keeps_removeRoom r _ d
  | revokeDevice r => exact keeps_revokeDevice r _ d
  | tick now => exact hh (harmless_modify (fun _ => rfl) (fun _ => rfl) True.intro)

lemma harmless_expireResults (done : R) : Harmless (Browses.expireResults done) :=
  harmless_clock fun _ => harmless_timedOut fun _ => True.intro

lemma harmless_clearFailed (done : R) : Harmless (Browses.clearFailed done) :=
  harmless_clock fun _ => harmless_cleared fun _ => True.intro

lemma keeps_browse (i : Fin n) (r : Browses.Request) (d : Db) :
    Keeps n q (Browses.body ⟨n, i⟩ r) [] id d := by
  have hh : ∀ {t : Storage.Program (Option Browse)}, Harmless t → Keeps n q t [] id d :=
    fun ht => ht.keeps (.none [] d) rfl
  cases r with
  | create r => exact keeps_createBrowse r _
  | get r => exact hh (harmless_get r)
  | finish r => exact hh (harmless_finish r)
  | expire id => exact hh (harmless_expireBrowse id _)
  | expireResults => exact hh (harmless_expireResults _)
  | clearFailed => exact hh (harmless_clearFailed _)

lemma removedRooms_kept (env : Environment) :
    Kept (body env n) (protocol n) always fun _ _ _ _ => True := by
  rintro ⟨i, r⟩ d -
  cases r with
  | cache r => exact (keeps_cache env.cache i r d).map _
  | transfer r => exact (keeps_transfer env.transfers i r d).map _
  | browse r => exact (keeps_browse i r d).map _

end Kept

/-- The room holds nothing live. -/
structure Empty (d : Db) (roomId : ℕ) : Prop where
  files : ∀ f ∈ d.files, f.roomId = roomId → f.availabilityStatus ≠ .available
  reservations : ∀ r ∈ d.reservations, r.roomId = roomId → r.status ≠ .reserved
  transfers : ∀ t ∈ d.transfers, t.roomId = roomId →
    t.status ∉ [TransferStatus.requested, .uploading, .ready]
  browses : ∀ r ∈ d.browses, r.roomId = roomId → r.status ≠ .requested ∧ r.resultPage = none

lemma Orderly.empty {d : Db} (hi : Orderly d) {r : Room} (hr : r ∈ d.rooms)
    (ha : r.active = false) : Empty d r.id := by
  have hno : ∀ w ∈ d.works, w.place.roomId = r.id → w.live = false := by
    intro w hw hroom
    by_contra hl
    rw [Bool.not_eq_false] at hl
    obtain ⟨r', hr', hid, ha', -⟩ := hi.active w hw hl
    obtain rfl := eq_of_id_eq hi.rooms hr hr' (hroom.symm.trans hid.symm)
    rw [ha] at ha'
    cases ha'
  refine ⟨fun f hf hroom => ?_, fun x hx hroom => ?_, fun t ht hroom => ?_, fun x hx hroom => ?_⟩
  · exact of_decide_eq_false (hno (.file f) (mem_works.mpr (.inl ⟨f, hf, rfl⟩)) hroom)
  · exact of_decide_eq_false
      (hno (.reservation x) (mem_works.mpr (.inr (.inl ⟨x, hx, rfl⟩))) hroom)
  · exact of_decide_eq_false
      (hno (.transfer t) (mem_works.mpr (.inr (.inr (.inl ⟨t, ht, rfl⟩)))) hroom)
  · have hx' := hno (.browse x) (mem_works.mpr (.inr (.inr (.inr ⟨x, hx, rfl⟩)))) hroom
    simpa [Work.live] using hx'

/-- **A room that is not active holds nothing live**, in every committed state of every run. -/
theorem removed_rooms_empty (env : Environment) {d₀ : Db} (h₀ : Orderly d₀)
    {s : State (Fin n × Request) Db Lock Code Response}
    (hs : AskedRuns (body env n) always (.quiet d₀) s) {r : Room} (hr : r ∈ s.db.rooms)
    (ha : r.active = false) : Empty s.db r.id :=
  ((removedRooms_kept env).run (.quiet h₀) hs).db.empty hr ha

/-! ### A room that goes with a transfer -/

def sampleEnvironment : Environment := ⟨⟨true, true, 100, 50⟩, Lifecycle.sampleEnvironment⟩

/-- A transfer is asked for, and its room is removed. -/
def sampleRequests : List (Fin 1 × Request) :=
  [(⟨0, Nat.one_pos⟩, .transfer (.create ⟨1, 3, "key", "a.txt", 5, true⟩)),
    (⟨0, Nat.one_pos⟩, .transfer (.removeRoom ⟨⟨1, none, "user"⟩, 3, "key"⟩))]

def serve (d : Db) (l : List (Fin 1 × Request)) : Db :=
  l.foldl (fun d q => (body sampleEnvironment 1 q).alone id d) d

lemma askedRuns_serve (d : Db) (l : List (Fin 1 × Request)) :
    AskedRuns (body sampleEnvironment 1) always (.quiet d) (.quiet (serve d l)) := by
  induction l generalizing d with
  | nil => exact .refl
  | cons q l ih => exact (askedRuns_alone q d fun _ _ => True.intro).trans (ih _)

theorem removed_rooms_empty_sample :
    (serve Lifecycle.sampleTables sampleRequests).transfers.map (·.status) = [.cancelled] ∧
      Empty (serve Lifecycle.sampleTables sampleRequests) 3 := by
  have hno : ∀ w, w ∉ Lifecycle.sampleTables.works := by
    simp [Db.works, Lifecycle.sampleTables]
  have h₀ : Orderly Lifecycle.sampleTables :=
    ⟨by decide, fun w hw => absurd hw (hno w), fun w hw => absurd hw (hno w)⟩
  have hr : (⟨3, 1, 9, false⟩ : Room) ∈ (serve Lifecycle.sampleTables sampleRequests).rooms := by
    decide +kernel
  exact ⟨by decide +kernel,
    removed_rooms_empty sampleEnvironment h₀ (askedRuns_serve _ sampleRequests) hr rfl⟩

end MouseKeeper.Storage.RemovedRooms
