import MouseKeeper.Storage.Connections
import MouseKeeper.Storage.Works

/-!
The locks of a room as a protocol.

Every request that makes a work live holds a share of its room's lock from when it has seen the room
active, and a removal holds the whole lock from before it ends the works of the room.
-/

namespace MouseKeeper.Storage.RemovedRooms

open MouseKeeper.ReadCommitted
open MouseKeeper.Server (Device Room)

variable (n : ℕ)

/-! ### The protocol -/

/-- The call holds the room's lock on one of the connections. -/
def Shared (held : List Lock) (roomId : ℕ) : Prop := ∃ k < n, Lock.room roomId k ∈ held

/-- The call holds the room's lock on all connections. -/
def Exclusive (held : List Lock) (roomId : ℕ) : Prop := ∀ k < n, Lock.room roomId k ∈ held

/-- The room of the place is active, and on the device of the place. -/
def Active (d : Db) (p : Place) : Prop :=
  ∃ r ∈ d.rooms, r.id = p.roomId ∧ r.active = true ∧ ∀ id ∈ p.deviceId, r.desktopDeviceId = id

/-- No room and no work is in twice, and what is live is so in an active room. -/
structure Orderly (d : Db) : Prop where
  rooms : (d.rooms.map (·.id)).Nodup
  unique : d.Unique
  active : ∀ w ∈ d.works, w.live = true → Active d w.place

/-- What others do while a call holds its locks: a room of which it holds a share stays as it is, a
room of which it holds the whole lock gets nothing live, and a work that it has locked stays. -/
structure Allowed (held : List Lock) (d d' : Db) : Prop where
  shared : ∀ r ∈ d.rooms, Shared n held r.id → r ∈ d'.rooms
  exclusive : ∀ w' ∈ d'.works, w'.live = true → Exclusive n held w'.place.roomId →
    ∃ w ∈ d.works, w.live = true ∧ (w'.waiting = true → w.waiting = true) ∧
      w.place = w'.place ∧ w.lock = w'.lock
  locked : ∀ w' ∈ d'.works, w'.lock ∈ held → w' ∈ d.works

variable {n}

lemma Shared.mono {held held' : List Lock} {roomId : ℕ} (h : Shared n held roomId)
    (hs : held ⊆ held') : Shared n held' roomId := by
  obtain ⟨k, hk, hl⟩ := h
  exact ⟨k, hk, hs hl⟩

lemma Exclusive.mono {held held' : List Lock} {roomId : ℕ} (h : Exclusive n held roomId)
    (hs : held ⊆ held') : Exclusive n held' roomId :=
  fun k hk => hs (h k hk)

/-- Nobody has the whole lock while another one has a share. -/
lemma Shared.not_exclusive {held held' : List Lock} {roomId : ℕ} (h : Shared n held roomId)
    (hd : List.Disjoint held held') : ¬ Exclusive n held' roomId := by
  obtain ⟨k, hk, hl⟩ := h
  exact fun he => hd hl (he k hk)

lemma Allowed.refl (held : List Lock) (d : Db) : Allowed n held d d :=
  ⟨fun _ hr _ => hr, fun w hw hl _ => ⟨w, hw, hl, fun h => h, rfl, rfl⟩, fun _ hw _ => hw⟩

lemma Allowed.trans {held : List Lock} {a b c : Db} (h : Allowed n held a b)
    (h' : Allowed n held b c) : Allowed n held a c where
  shared r hr hs := h'.shared r (h.shared r hr hs) hs
  exclusive w hw hl he := by
    obtain ⟨w', hw', hl', hq', hp', hk'⟩ := h'.exclusive w hw hl he
    obtain ⟨w'', hw'', hl'', hq'', hp'', hk''⟩ := h.exclusive w' hw' hl' (hp' ▸ he)
    exact ⟨w'', hw'', hl'', fun hq => hq'' (hq' hq), hp''.trans hp', hk''.trans hk'⟩
  locked w hw hl := h.locked w (h'.locked w hw hl) hl

lemma Allowed.mono {held held' : List Lock} {d d' : Db} (h : Allowed n held' d d')
    (hs : held ⊆ held') : Allowed n held d d' where
  shared r hr hsh := h.shared r hr (hsh.mono hs)
  exclusive w hw hl he := h.exclusive w hw hl (he.mono hs)
  locked w hw hl := h.locked w hw (hs hl)

variable (n) in
def protocol : Protocol Db Lock where
  inv := Orderly
  rely := Allowed n
  refl := Allowed.refl
  trans := Allowed.trans

/-! ### What a call does -/

/-- The works of the place may come to life under the locks of the call. -/
def Open (n : ℕ) (held : List Lock) (d : Db) (p : Place) : Prop :=
  Shared n held p.roomId ∧ Active d p

lemma Open.rely {held held' : List Lock} {d d' : Db} {p : Place} (h : Open n held d p)
    (hd : Allowed n held d d') (hs : held ⊆ held') : Open n held' d' p := by
  obtain ⟨hsh, r, hr, hid, ha⟩ := h
  exact ⟨hsh.mono hs, r, hd.shared r hr (hid ▸ hsh), hid, ha⟩

/-- A call changes the works by a function and adds some, and it removes rooms. -/
structure Effect where
  change : Work → Work
  new : List Work
  removed : List ℕ

def Effect.none : Effect := ⟨id, [], []⟩

/-- The works of the places fail the test with the call. -/
def Ends (n : ℕ) (held : List Lock) (d : Db) (test : Work → Bool) (change : Work → Work)
    (P : Place → Prop) : Prop :=
  (∀ p, P p → Exclusive n held p.roomId) ∧ ∀ w ∈ d.works, P w.place → test (change w) = false

/-- What passes the test in a room whose whole lock is held has passed it before. -/
def Closed (n : ℕ) (test : Work → Bool) : Prop :=
  ∀ held d d', Allowed n held d d' → ∀ w' ∈ d'.works, test w' = true →
    Exclusive n held w'.place.roomId →
      ∃ w ∈ d.works, test w = true ∧ w.place = w'.place ∧ w.lock = w'.lock

lemma closed_live : Closed n Work.live := by
  intro held d d' hd w' hw' hl he
  obtain ⟨w, hw, hl', -, hp, hk⟩ := hd.exclusive w' hw' hl he
  exact ⟨w, hw, hl', hp, hk⟩

lemma closed_waiting : Closed n Work.waiting := by
  intro held d d' hd w' hw' hq he
  obtain ⟨w, hw, -, hq', hp, hk⟩ := hd.exclusive w' hw' (Work.live_of_waiting hq) he
  exact ⟨w, hw, hq' hq, hp, hk⟩

structure Effects (n : ℕ) (held : List Lock) (f : Db → Db) (d : Db) (e : Effect) : Prop where
  works : ∀ d w, w ∈ (f d).works ↔ (∃ x ∈ d.works, w = e.change x) ∨ w ∈ e.new
  rooms : ∀ d, (f d).rooms = setRows Room.id e.removed Connections.removed d.rooms
  touched : ∀ w, e.change w ≠ w → w.lock ∈ held
  lock : ∀ w, (e.change w).lock = w.lock
  place : ∀ w, (e.change w).place = w.place
  waits : ∀ w, (e.change w).waiting = true → w.waiting = true
  added : ∀ w ∈ e.new, w.lock ∈ held
  fresh : ∀ w ∈ e.new, ∀ x ∈ d.works, x.lock ≠ w.lock
  distinct : ∀ w ∈ e.new, ∀ w' ∈ e.new, w.lock = w'.lock → w = w'
  alive : ∀ w ∈ d.works, (e.change w).live = true → w.live = true ∨ Open n held d w.place
  comes : ∀ w ∈ e.new, w.live = true → Open n held d w.place ∧ w.place.roomId ∉ e.removed
  ends : Ends n held d Work.live e.change fun p => p.roomId ∈ e.removed

section Effects

variable {held held' : List Lock} {f : Db → Db} {d d' : Db} {e : Effect}

lemma Effects.none (held : List Lock) (d : Db) : Effects n held id d .none where
  works := by simp [Effect.none]
  rooms d := by simp [Effect.none, setRows]
  touched w hw := absurd rfl hw
  lock _ := rfl
  place _ := rfl
  waits _ h := h
  added := by simp [Effect.none]
  fresh := by simp [Effect.none]
  distinct := by simp [Effect.none]
  alive w _ hl := .inl hl
  comes := by simp [Effect.none]
  ends := by simp [Ends, Effect.none]

/-- What is locked stays, and nothing comes to life in a room whose whole lock is held. -/
lemma Ends.rely {test : Work → Bool} {change : Work → Work} {P : Place → Prop}
    (h : Ends n held d test change P) (ht : Closed n test)
    (htouched : ∀ w, change w ≠ w → w.lock ∈ held) (hd : Allowed n held d d')
    (hs : held ⊆ held') : Ends n held' d' test change P := by
  refine ⟨fun p hp => (h.1 p hp).mono hs, fun w hw hp => ?_⟩
  by_cases hl : w.lock ∈ held
  · exact h.2 w (hd.locked w hw hl) hp
  · have hsame : change w = w := by
      by_contra hne
      exact hl (htouched w hne)
    rw [hsame]
    by_contra hlive
    rw [Bool.not_eq_false] at hlive
    obtain ⟨x, hx, hxl, hplace, hlock⟩ := ht _ _ _ hd w hw hlive (h.1 _ hp)
    have hend := h.2 x hx (hplace ▸ hp)
    have hx' : change x = x := by
      by_contra hne
      exact hl (hlock ▸ htouched x hne)
    rw [hx', hxl] at hend
    cases hend

lemma Effects.rely (h : Effects n held f d e) (hd : Allowed n held d d') (hs : held ⊆ held') :
    Effects n held' f d' e where
  works := h.works
  rooms := h.rooms
  touched w hw := hs (h.touched w hw)
  lock := h.lock
  place := h.place
  waits := h.waits
  added w hw := hs (h.added w hw)
  fresh w hw x hx hl := h.fresh w hw x (hd.locked x hx (hl ▸ h.added w hw)) hl
  distinct := h.distinct
  alive w hw hl := by
    by_cases hsame : e.change w = w
    · exact .inl (hsame ▸ hl)
    · exact (h.alive w (hd.locked w hw (h.touched w hsame)) hl).imp_right (·.rely hd hs)
  comes w hw hl := ⟨(h.comes w hw hl).1.rely hd hs, (h.comes w hw hl).2⟩
  ends := h.ends.rely closed_live h.touched hd hs

lemma mem_removed {ids : List ℕ} {rooms : List Room} {r : Room} (hr : r ∈ rooms)
    (hid : r.id ∉ ids) : r ∈ setRows Room.id ids Connections.removed rooms :=
  mem_setRows_of_not_mem hr hid

lemma removed_id {ids : List ℕ} {r : Room} :
    (if r.id ∈ ids then Connections.removed r else r).id = r.id := by
  split
  · rfl
  · rfl

lemma Effects.unique (h : Effects n held f d e) (hi : Orderly d) : (f d).Unique := by
  intro w hw w' hw' hl
  rcases (h.works d w).mp hw with ⟨x, hx, rfl⟩ | hw
  · rcases (h.works d w').mp hw' with ⟨x', hx', rfl⟩ | hw'
    · rw [h.lock, h.lock] at hl
      rw [hi.unique x hx x' hx' hl]
    · rw [h.lock] at hl
      exact absurd hl (h.fresh w' hw' x hx)
  · rcases (h.works d w').mp hw' with ⟨x', hx', rfl⟩ | hw'
    · rw [h.lock] at hl
      exact absurd hl.symm (h.fresh w hw x' hx')
    · exact h.distinct w hw w' hw' hl

/-- The commit keeps what is live in active rooms. -/
lemma Effects.orderly (h : Effects n held f d e) (hi : Orderly d) : Orderly (f d) where
  rooms := by
    have hids : (f d).rooms.map Room.id = d.rooms.map Room.id := by
      rw [h.rooms]
      exact map_id_setRows fun _ _ _ => rfl
    exact hids ▸ hi.rooms
  unique := h.unique hi
  active w hw hl := by
    have hkeep : ∀ p, p.roomId ∉ e.removed → Active d p → Active (f d) p := by
      rintro p hp ⟨r, hr, hid, ha⟩
      refine ⟨r, ?_, hid, ha⟩
      rw [h.rooms]
      exact mem_removed hr (hid ▸ hp)
    rcases (h.works d w).mp hw with ⟨x, hx, rfl⟩ | hw
    · rw [h.place]
      refine hkeep _ (fun hr => ?_) ?_
      · rw [h.ends.2 x hx hr] at hl
        cases hl
      · rcases h.alive x hx hl with hx' | ho
        · exact hi.active x hx hx'
        · exact ho.2
    · obtain ⟨ho, hr⟩ := h.comes w hw hl
      exact hkeep _ hr ho.2

/-- The commit is something that every call with other locks allows. -/
lemma Effects.allowed (h : Effects n held f d e) (hd : List.Disjoint held held') :
    Allowed n held' d (f d) where
  shared r hr hs := by
    rw [h.rooms]
    refine mem_removed hr fun hm => ?_
    exact hs.not_exclusive (fun l hl' hl => hd hl hl') (h.ends.1 ⟨.file, r.id, Option.none⟩ hm)
  exclusive w hw hl he := by
    rcases (h.works d w).mp hw with ⟨x, hx, rfl⟩ | hw
    · rcases h.alive x hx hl with hx' | ho
      · exact ⟨x, hx, hx', h.waits x, (h.place x).symm, (h.lock x).symm⟩
      · rw [h.place] at he
        exact absurd he (ho.1.not_exclusive hd)
    · exact absurd he ((h.comes w hw hl).1.1.not_exclusive hd)
  locked w hw hl := by
    rcases (h.works d w).mp hw with ⟨x, hx, rfl⟩ | hw
    · rw [h.lock] at hl
      have hsame : e.change x = x := by
        by_contra hne
        exact hd (h.touched x hne) hl
      rwa [hsame]
    · exact absurd hl (hd (h.added w hw))

end Effects

/-! ### Statements under the protocol -/

/-- The effect followed by a change of works. -/
def Effect.after (e : Effect) (g : Work → Work) : Effect :=
  ⟨fun w => g (e.change w), e.new.map g, e.removed⟩

/-- The effect with one more work. -/
def Effect.add (e : Effect) (w : Work) : Effect := { e with new := e.new ++ [w] }

section Statements

variable {Q R α : Type} {q : Q} {held held' locks : List Lock} {f c : Db → Db} {d : Db}
  {e : Effect} {g : Work → Work}

lemma Effects.change (h : Effects n held f d e) (hr : e.removed = []) (hc : Change locks c g)
    (hlive : ∀ w ∈ (f d).works, (g w).live = true → w.live = true ∨ Open n held d w.place) :
    Effects n (locks ++ held) (fun x => c (f x)) d (e.after g) := by
  have hs : held ⊆ locks ++ held := List.subset_append_right _ _
  refine ⟨fun x w => ?_, fun x => (hc.rooms _).trans (h.rooms x), fun w hw => ?_,
    fun w => (hc.lock _).trans (h.lock w), fun w => (hc.place _).trans (h.place w),
    fun w hq => h.waits w (hc.waits _ hq), ?_, ?_, ?_, fun w hw hl => ?_, ?_, ?_⟩
  · rw [hc.works]
    constructor
    · rintro ⟨y, hy, rfl⟩
      rcases (h.works x y).mp hy with ⟨z, hz, rfl⟩ | hy
      · exact .inl ⟨z, hz, rfl⟩
      · exact .inr (List.mem_map_of_mem hy)
    · rintro (⟨z, hz, rfl⟩ | hw)
      · exact ⟨e.change z, (h.works x _).mpr (.inl ⟨z, hz, rfl⟩), rfl⟩
      · obtain ⟨y, hy, rfl⟩ := List.mem_map.mp hw
        exact ⟨y, (h.works x y).mpr (.inr hy), rfl⟩
  · by_cases hsame : e.change w = w
    · have hg : g w ≠ w := fun hg => hw ((congrArg g hsame).trans hg)
      exact List.mem_append_left _ (hc.touched w hg)
    · exact hs (h.touched w hsame)
  · intro w hw
    obtain ⟨y, hy, rfl⟩ := List.mem_map.mp hw
    rw [hc.lock]
    exact hs (h.added y hy)
  · intro w hw x hx
    obtain ⟨y, hy, rfl⟩ := List.mem_map.mp hw
    rw [hc.lock]
    exact h.fresh y hy x hx
  · intro w hw w' hw' hl
    obtain ⟨y, hy, rfl⟩ := List.mem_map.mp hw
    obtain ⟨y', hy', rfl⟩ := List.mem_map.mp hw'
    rw [hc.lock, hc.lock] at hl
    rw [h.distinct y hy y' hy' hl]
  · rcases hlive (e.change w) ((h.works d _).mpr (.inl ⟨w, hw, rfl⟩)) hl with hl | ho
    · exact (h.alive w hw hl).imp_right (·.rely (.refl _ _) hs)
    · rw [h.place] at ho
      exact .inr (ho.rely (.refl _ _) hs)
  · intro w hw hl
    obtain ⟨y, hy, rfl⟩ := List.mem_map.mp hw
    refine ⟨?_, by simp [Effect.after, hr]⟩
    rw [hc.place]
    rcases hlive y ((h.works d y).mpr (.inr hy)) hl with hl | ho
    · exact (h.comes y hy hl).1.rely (.refl _ _) hs
    · exact ho.rely (.refl _ _) hs
  · simp [Ends, Effect.after, hr]

lemma Effects.add (h : Effects n held f d e) (hr : e.removed = []) {w : Work}
    (hw : ∀ x y, y ∈ (c x).works ↔ y ∈ x.works ∨ y = w) (hrooms : ∀ x, (c x).rooms = x.rooms)
    (hl : w.lock ∈ locks) (hfresh : ∀ x ∈ (f d).works, x.lock ≠ w.lock)
    (hopen : Open n held d w.place) :
    Effects n (locks ++ held) (fun x => c (f x)) d (e.add w) := by
  have hs : held ⊆ locks ++ held := List.subset_append_right _ _
  have hmem : ∀ y ∈ (e.add w).new, y ∈ e.new ∨ y = w := by
    simp [Effect.add]
  refine ⟨fun x y => ?_, fun x => (hrooms _).trans (h.rooms x), fun y hy => hs (h.touched y hy),
    h.lock, h.place, h.waits, fun y hy => ?_, fun y hy x hx => ?_, fun y hy y' hy' hyl => ?_,
    fun y hy hyl => (h.alive y hy hyl).imp_right (·.rely (.refl _ _) hs), fun y hy hyl => ?_, ?_⟩
  · rw [hw, h.works]
    simp [Effect.add, or_assoc]
  · rcases hmem y hy with hy | rfl
    · exact hs (h.added y hy)
    · exact List.mem_append_left _ hl
  · rcases hmem y hy with hy | rfl
    · exact h.fresh y hy x hx
    · have hx' := hfresh _ ((h.works d _).mpr (.inl ⟨x, hx, rfl⟩))
      rwa [h.lock] at hx'
  · have hne : ∀ z ∈ e.new, z.lock ≠ w.lock := fun z hz =>
      hfresh z ((h.works d z).mpr (.inr hz))
    rcases hmem y hy with hy | hy <;> rcases hmem y' hy' with hy' | hy'
    · exact h.distinct y hy y' hy' hyl
    · exact absurd (hyl.trans (congrArg Work.lock hy')) (hne y hy)
    · exact absurd (hyl.symm.trans (congrArg Work.lock hy)) (hne y' hy')
    · exact hy.trans hy'.symm
  · refine ⟨?_, by simp [Effect.add, hr]⟩
    rcases hmem y hy with hy | rfl
    · exact (h.comes y hy hyl).1.rely (.refl _ _) hs
    · exact hopen.rely (.refl _ _) hs
  · simp [Ends, Effect.add, hr]

/-- What is left of a request keeps the protocol. -/
abbrev Keeps (n : ℕ) (q : Q) (t : Storage.Program R) (held : List Lock) (f : Db → Db) (d : Db) :
    Prop :=
  t.Keeps (protocol n) always (fun _ _ _ _ => True) q held f d

lemma keeps_answer {r : R} (h : Effects n held f d e) : Keeps n q (.answer (.ok r)) held f d := by
  intro d' hd hi _
  have h' := h.rely hd (List.Subset.refl _)
  exact ⟨h'.orderly hi, fun _ hdis => h'.allowed hdis, True.intro⟩

/-- A statement after which nothing is live that was not. -/
lemma keeps_stmt {locks : Db → List Lock} {change : Db → Db → Db} {next : Db → Storage.Program R}
    {g : Db → Work → Work} (h : Effects n held f d e) (hr : e.removed = [])
    (hc : ∀ v, Change (locks v) (change v) (g v))
    (hlive : ∀ d', Allowed n held d d' → Orderly d' → Effects n held f d' e →
      ∀ w ∈ (f d').works, (g (f d') w).live = true → w.live = true ∨ Open n held d' w.place)
    (hnext : ∀ d', Allowed n held d d' → Orderly d' → Effects n (locks (f d') ++ held)
      (fun x => change (f d') (f x)) d' (e.after (g (f d'))) →
      Keeps n q (next (f d')) (locks (f d') ++ held) (fun x => change (f d') (f x)) d') :
    Keeps n q (.stmt locks change next) held f d := by
  intro d' hd hi _
  have h' := h.rely hd (List.Subset.refl _)
  exact hnext d' hd hi (h'.change hr (hc (f d')) (hlive d' hd hi h'))

end Statements

/-! ### Harmless requests -/

section Harmless

variable {Q R R' α : Type} {q : Q} {held : List Lock} {f : Db → Db} {d : Db} {e : Effect}

/-- The program makes nothing live. -/
def Harmless : Storage.Program R → Prop
  | .answer _ => True
  | .stmt locks change next =>
    (∀ v, ∃ g, Change (locks v) (change v) g ∧
      (v.Unique → ∀ w ∈ v.works, (g w).live = true → w.live = true)) ∧
      ∀ v, Harmless (next v)

lemma Harmless.keeps {t : Storage.Program R} (ht : Harmless t) (h : Effects n held f d e)
    (hr : e.removed = []) : Keeps n q t held f d := by
  induction t generalizing held f d e with
  | answer r =>
    cases r with
    | error _ => exact True.intro
    | ok r => exact keeps_answer h
  | stmt locks change next ih =>
    choose g hc hg using ht.1
    exact keeps_stmt h hr hc (fun d' _ hi he w hw hl => .inl (hg (f d') (he.unique hi) w hw hl))
      fun d' _ _ he => ih (f d') (ht.2 (f d')) he hr

lemma Harmless.map {t : Storage.Program R} (ht : Harmless t) (g : R → R') :
    Harmless (t.map g) := by
  induction t with
  | answer r => exact True.intro
  | stmt locks change next ih => exact ⟨ht.1, fun v => ih v (ht.2 v)⟩

/-- A statement that writes no work and no room. -/
lemma harmless_aside {locks : Db → List Lock} {change : Db → Db → Db}
    {next : Db → Storage.Program R} (hw : ∀ v d, (change v d).works = d.works)
    (hr : ∀ v d, (change v d).rooms = d.rooms) (h : ∀ v, Harmless (next v)) :
    Harmless (.stmt locks change next) :=
  ⟨fun v => ⟨id, Change.aside (hw v) (hr v) _, fun _ _ _ hl => hl⟩, h⟩

lemma harmless_lock {locks : Db → List Lock} {next : Db → Storage.Program R}
    (h : ∀ v, Harmless (next v)) : Harmless (Txn.lock locks next) :=
  harmless_aside (fun _ _ => rfl) (fun _ _ => rfl) h

lemma harmless_read {next : Db → Storage.Program R} (h : ∀ v, Harmless (next v)) :
    Harmless (Txn.read next) :=
  harmless_lock h

lemma harmless_clock {next : ℕ → Storage.Program R} (h : ∀ now, Harmless (next now)) :
    Harmless (clock next) :=
  harmless_lock fun v => h v.now

lemma harmless_select {row : Db → Option α} {next : Option α → Storage.Program R}
    (h : ∀ x, Harmless (next x)) : Harmless (select row next) :=
  harmless_lock fun v => h (row v)

lemma harmless_selectFor {row : Db → Option α} {locks : α → List Lock}
    {next : Option α → Storage.Program R} (h : ∀ x, Harmless (next x)) :
    Harmless (selectFor row locks next) :=
  harmless_lock fun v => h (row v)

lemma harmless_modify {change : Db → Db} {next : Storage.Program R}
    (hw : ∀ d, (change d).works = d.works) (hr : ∀ d, (change d).rooms = d.rooms)
    (h : Harmless next) : Harmless (modify change next) :=
  harmless_aside (fun _ => hw) (fun _ => hr) fun _ => h

/-- An update of works after which none is live that was not. -/
lemma harmless_update (k : WorkTable α) {cond : α → Bool} {set : α → α}
    {next : List α → Storage.Program R}
    (hlock : ∀ x, (k.work (set x)).lock = (k.work x).lock)
    (hplace : ∀ x, (k.work (set x)).place = (k.work x).place)
    (hwaits : ∀ x, (k.work (set x)).waiting = true → (k.work x).waiting = true)
    (hlive : ∀ x, cond x = true → (k.work (set x)).live = true → (k.work x).live = true)
    (h : ∀ rows, Harmless (next rows)) : Harmless (k.table.update cond set next) := by
  refine ⟨fun v => ⟨k.lift (k.table.ids cond v) set, WorkTable.change_set hlock hplace hwaits,
    fun hu w hw hl => ?_⟩, fun v => h _⟩
  rcases WorkTable.lift_matching k cond set hu hw with heq | ⟨x, -, hc, rfl, heq⟩
  · rwa [heq] at hl
  · rw [heq] at hl
    exact hlive x hc hl

lemma harmless_connection {b : Backend} {userId deviceId roomId : ℕ}
    {noDevice noRoom next : Storage.Program R} (hd : Harmless noDevice) (hr : Harmless noRoom)
    (h : Harmless next) : Harmless (lockConnection b userId deviceId roomId noDevice noRoom next) := by
  refine harmless_selectFor fun v => ?_
  cases v with
  | none => exact hd
  | some v =>
    refine harmless_selectFor fun r => ?_
    cases r with
    | none => exact hr
    | some r => exact h

end Harmless

end MouseKeeper.Storage.RemovedRooms
