import MouseKeeper.Desktop.RootWrites
import MouseKeeper.FileEngine.Guard
import MouseKeeper.FileEngine.Rules

/-!
Registering a folder.

A folder is registered under the hash of its canonical path, with a fresh record that no room
holds. The registry takes the record up before its row is written, and a record that stands
under the same id gives way to it.
-/

namespace MouseKeeper.Desktop

open MouseKeeper.Posix MouseKeeper.FileEngine

def managedRootId (root : String) : String :=
  "root:" ++ hex16 (fnv1a64 root.toUTF8.data.toList).toNat

/-- The record of the folder that a guard stands for. -/
def freshRoot (guard : PathGuard) (now : ℤ) : ManagedRoot :=
  .new (managedRootId guard.root.display) guard.root.display
    ((RawPath.fileName guard.root.raw).elim "managed root" Subtype.val) now

def registerManagedRootWithoutStore (t : Tree) (path : RawPath) (now : ℤ) :
    Except String ManagedRoot := do
  let guard ← (PathGuard.new t path).mapError PathGuardError.toText
  return freshRoot guard now

/-- The room of a folder, the room it was detached from, and whether it may be used. -/
def ManagedRoot.access (root : ManagedRoot) :
    Option String × RoomBindingStatus × Option String × Bool :=
  (root.roomId, root.roomBindingStatus, root.detachedRoomId, root.enabled)

@[simp] lemma freshRoot_root (g : PathGuard) (now : ℤ) :
    (freshRoot g now).root = g.root.display := rfl

@[simp] lemma freshRoot_access (g : PathGuard) (now : ℤ) :
    (freshRoot g now).access = (none, .unbound, none, true) := rfl

lemma registerManagedRootWithoutStore_ok {t : Tree} {path : RawPath} {now : ℤ} {g : PathGuard}
    (h : PathGuard.new t path = .ok g) :
    registerManagedRootWithoutStore t path now = .ok (freshRoot g now) := by
  rw [registerManagedRootWithoutStore, h]
  rfl

lemma registerManagedRootWithoutStore_error {t : Tree} {path : RawPath} {now : ℤ}
    {e : PathGuardError} (h : PathGuard.new t path = .error e) :
    registerManagedRootWithoutStore t path now = .error e.toText := by
  rw [registerManagedRootWithoutStore, h]
  rfl

namespace RootWrites

open MouseKeeper.Machine MouseKeeper.WriteBehind ManagedRootStore

/-- The row cannot be written: the database fails, or another row has the path. -/
def lost (s : State) (root : ManagedRoot) (fails : Bool) : Bool :=
  fails || refused s.rows (persist root)

/-- What `upsert` leaves behind. -/
def State.upsert (s : State) (root : ManagedRoot) (fails : Bool) : State :=
  match ManagedRootStore.upsert s.roots root with
  | .error _ => s
  | .ok (root, roots) =>
    if lost s root fails then { s with roots }
    else { s with roots, rows := (persist root).apply s.rows }

/-- What the call leaves behind, whatever it answers. -/
def registerManagedRootInStore (t : Tree) (path : RawPath) (now : ℤ) (fails : Bool) (s : State) :
    State :=
  match registerManagedRootWithoutStore t path now with
  | .error _ => s
  | .ok managed => s.upsert managed fails

/-- The path leads to the folder with this canonical path. -/
def Names (t : Tree) (path : RawPath) (root : String) : Prop :=
  ∃ g, PathGuard.new t path = .ok g ∧ root = g.root.display

/-- The call from the first state to the second keeps what the folder was, every record of
another folder, and the database with what it leaves in memory. -/
structure ForgetsNothing (t : Tree) (path : RawPath) (s s' : State) : Prop where
  kept : ∀ {id : String} {old : ManagedRoot}, s.roots[id]? = some old → Names t path old.root →
    ∃ new, s'.roots[id]? = some new ∧ new.root = old.root ∧ new.access = old.access
  others : ∀ {id : String} {old : ManagedRoot}, s.roots[id]? = some old →
    ¬ Names t path old.root → s'.roots[id]? = some old
  otherRows : ∀ {id : String} {old : ManagedRootRow}, s.rows[id]? = some old →
    ¬ Names t path old.canonicalPath → s'.rows[id]? = some old
  held : ∀ {id : String} {new : ManagedRoot}, s'.roots[id]? = some new →
    s.roots[id]? ≠ some new → s'.rows[id]? = some new.toRow

/-- The record that would give way is of the same folder and says the same of its room and
its flag. -/
def NothingToForget (roots : Roots) (root : ManagedRoot) : Prop :=
  ∀ old, roots[root.rootId]? = some old → old.root = root.root ∧ old.access = root.access

/-- The row is written in the place of no other folder's, or it cannot be written and the
record stands in the database, or in memory, already. -/
def RowFollows (s : State) (root : ManagedRoot) (fails : Bool) : Prop :=
  if lost s root fails then
    s.roots[root.rootId]? = some root ∨ s.rows[root.rootId]? = some root.toRow
  else ∀ row, s.rows[root.rootId]? = some row → row.canonicalPath = root.root

def Accepts (roots : Roots) (root : ManagedRoot) : Prop :=
  ensureNotOverlapping (values roots) root = .ok ()

/-- A folder is registered where there is nothing to forget, and the process starts from rows
that say what the registry says. -/
def Remembers (s : State) : Action → Prop
  | .upsert root => Accepts s.roots root → NothingToForget s.roots root
  | .restart => s.launch.roots = s.roots
  | _ => True

def DisabledIn (roots : Roots) (id : String) : Prop :=
  ∃ root, roots[id]? = some root ∧ root.enabled = false

/-- The call that enables the root. -/
def Enables (id : String) : Action → Prop
  | .updateState rootId patch _ => rootId = id ∧ patch.enabled = some true
  | _ => False

/-- The call that binds the root to a room, other than by registering it. -/
def BindsRoom (id : String) : Action → Prop
  | .bindRoom rootId _ _ | .adopt rootId _ _ => rootId = id
  | _ => False

variable {s s' : State} {a : Action} {id : String} {root : ManagedRoot} {fails : Bool}
  {t : Tree} {path : RawPath} {now : ℤ} {g : PathGuard}

/-! ### One call -/

lemma upsert_accepted (h : Accepts s.roots root) :
    ManagedRootStore.upsert s.roots root = .ok (root, s.roots.insert root.rootId root) := by
  rw [ManagedRootStore.upsert, show ensureNotOverlapping (values s.roots) root = .ok () from h]
  rfl

lemma upsert_refused (h : ¬ Accepts s.roots root) :
    ∃ e, ManagedRootStore.upsert s.roots root = .error e := by
  unfold ManagedRootStore.upsert
  cases ho : ensureNotOverlapping (values s.roots) root with
  | error e => exact ⟨e, rfl⟩
  | ok u => exact absurd ho h

lemma upsert_of_refused (h : ¬ Accepts s.roots root) : s.upsert root fails = s := by
  obtain ⟨e, he⟩ := upsert_refused h
  simp only [State.upsert, he]

lemma upsert_roots (h : Accepts s.roots root) :
    (s.upsert root fails).roots = s.roots.insert root.rootId root := by
  simp only [State.upsert, upsert_accepted h]
  split_ifs <;> rfl

lemma upsert_rows (h : Accepts s.roots root) : (s.upsert root fails).rows =
    if lost s root fails then s.rows else s.rows.insert root.rootId root.toRow := by
  simp only [State.upsert, upsert_accepted h]
  split_ifs <;> rfl

/-- The call is a change of the registry and a write, one right after the other. -/
lemma upsert_run (hr : s.running = true) (h : Accepts s.roots root) :
    run step s [.upsert root, .write s.calls.length fails] =
      some { s.upsert root fails with calls := s.calls ++ [[]] } := by
  have hnext : next (s.calls ++ [[persist root]]) s.calls.length =
      some (persist root, s.calls ++ [[]]) := by
    simp [next]
  simp only [run, step, hr, true_or, act, upsert_accepted h, State.answer, State.change,
    Option.bind_some, hnext, Option.map_some, State.upsert, lost, if_pos]
  split_ifs <;> simp

lemma insert_get {V : Type} (m : Std.ExtTreeMap String V) (k k' : String) (v : V) :
    (m.insert k v)[k']? = if k = k' then some v else m[k']? := by
  simp [Std.ExtTreeMap.getElem?_insert]

/-- The call leaves everything as it was. -/
lemma forgetsNothing_self : ForgetsNothing t path s s where
  kept := fun ho _ => ⟨_, ho, rfl, rfl⟩
  others := fun ho _ => ho
  otherRows := fun ho _ => ho
  held := fun hn ho => absurd hn ho

lemma names_iff (hg : PathGuard.new t path = .ok g) (p : String) :
    Names t path p ↔ p = g.root.display := by
  constructor
  · rintro ⟨g', hg', rfl⟩
    cases hg.symm.trans hg'
    rfl
  · rintro rfl
    exact ⟨g, hg, rfl⟩

lemma row_of_accepted (h : Accepts s.roots root) (hw : lost s root fails = false) :
    (s.upsert root fails).rows[root.rootId]? = some root.toRow := by
  rw [upsert_rows h, hw, if_neg Bool.false_ne_true, insert_get, if_pos rfl]

section Upsert

variable (hpath : ∀ p, Names t path p ↔ p = root.root) (ha : Accepts s.roots root)
include hpath ha

/-- A record that gives way is replaced by one that says the same, if nothing is forgotten. -/
lemma nothingToForget_of_forgetsNothing
    (h : ForgetsNothing t path s (s.upsert root fails)) : NothingToForget s.roots root := by
  intro old ho
  have hnew : (s.upsert root fails).roots[root.rootId]? = some root := by
    rw [upsert_roots ha, insert_get, if_pos rfl]
  by_cases hn : Names t path old.root
  · obtain ⟨new, hn', hroot, haccess⟩ := h.kept ho hn
    cases hnew.symm.trans hn'
    exact ⟨hroot.symm, haccess.symm⟩
  · cases hnew.symm.trans (h.others ho hn)
    exact absurd ((hpath _).mpr rfl) hn

lemma rowFollows_of_forgetsNothing
    (h : ForgetsNothing t path s (s.upsert root fails)) : RowFollows s root fails := by
  unfold RowFollows
  split_ifs with hw
  · rw [or_iff_not_imp_left]
    intro ho
    have hnew : (s.upsert root fails).roots[root.rootId]? = some root := by
      rw [upsert_roots ha, insert_get, if_pos rfl]
    have hrow := h.held hnew ho
    rwa [upsert_rows ha, if_pos hw] at hrow
  · intro row hrow
    by_contra hne
    have hkept := h.otherRows hrow fun hn => hne ((hpath _).mp hn)
    rw [row_of_accepted ha (by simpa using hw)] at hkept
    exact hne (congrArg ManagedRootRow.canonicalPath (Option.some.inj hkept)).symm

lemma forgetsNothing_of (hf : NothingToForget s.roots root) (hw : RowFollows s root fails) :
    ForgetsNothing t path s (s.upsert root fails) where
  kept := fun {id old} ho _ => by
    rw [upsert_roots ha, insert_get]
    split_ifs with hid
    · obtain ⟨hroot, haccess⟩ := hf old (hid ▸ ho)
      exact ⟨root, rfl, hroot.symm, haccess.symm⟩
    · exact ⟨old, ho, rfl, rfl⟩
  others := fun {id old} ho hn => by
    rw [upsert_roots ha, insert_get, if_neg, ho]
    rintro rfl
    exact hn ((hpath _).mpr (hf old ho).1)
  otherRows := fun {id old} ho hn => by
    rw [upsert_rows ha]
    unfold RowFollows at hw
    split_ifs at hw ⊢
    · exact ho
    · rw [insert_get, if_neg, ho]
      rintro rfl
      exact hn ((hpath _).mpr (hw old ho))
  held := fun {id new} hnew hold => by
    rw [upsert_roots ha, insert_get] at hnew
    split_ifs at hnew with hid
    · cases hid
      cases hnew
      rw [upsert_rows ha]
      unfold RowFollows at hw
      split_ifs at hw ⊢
      · exact hw.resolve_left hold
      · rw [insert_get, if_pos rfl]
    · exact absurd hnew hold

end Upsert

/-- **One call forgets nothing just where there is nothing to forget.** -/
lemma forgetsNothing_iff :
    ForgetsNothing t path s (registerManagedRootInStore t path now fails s) ↔
      ∀ g, PathGuard.new t path = .ok g → Accepts s.roots (freshRoot g now) →
        NothingToForget s.roots (freshRoot g now) ∧ RowFollows s (freshRoot g now) fails := by
  unfold registerManagedRootInStore
  cases hg : PathGuard.new t path with
  | error e =>
    rw [registerManagedRootWithoutStore_error hg]
    exact iff_of_true forgetsNothing_self fun _ h => by cases h
  | ok g =>
    rw [registerManagedRootWithoutStore_ok hg]
    have hpath : ∀ p, Names t path p ↔ p = (freshRoot g now).root := names_iff hg
    constructor
    · rintro h g' hg' ha
      cases hg'
      exact ⟨nothingToForget_of_forgetsNothing hpath ha h, rowFollows_of_forgetsNothing hpath ha h⟩
    · intro h
      by_cases ha : Accepts s.roots (freshRoot g now)
      · exact forgetsNothing_of hpath ha (h g rfl ha).1 (h g rfl ha).2
      · have hself : s.upsert (freshRoot g now) fails = s := upsert_of_refused ha
        simpa only [hself] using forgetsNothing_self

/-! ### Runs -/

/-- What a step does to the record at an id: nothing, or it stays as closed as it was but for
the calls that open it. -/
structure StaysClosed (id : String) (s : State) (a : Action) (s' : State) : Prop where
  detached : DetachedIn s.roots id → DetachedIn s'.roots id ∨ BindsRoom id a ∨ a = .remove id
  disabled : DisabledIn s.roots id → DisabledIn s'.roots id ∨ Enables id a ∨ a = .remove id

lemma StaysClosed.of_eq (h : s'.roots = s.roots) : StaysClosed id s a s' where
  detached := fun hd => .inl (h ▸ hd)
  disabled := fun hd => .inl (h ▸ hd)

/-- The record of a root gives way to one that is as closed, or that the call opens. -/
lemma StaysClosed.insert {key : String} {new : ManagedRoot}
    (hroots : s'.roots = s.roots.insert key new)
    (hd : ∀ old, s.roots[key]? = some old → old.roomBindingStatus = .detached →
      new.roomBindingStatus = .detached ∨ BindsRoom key a)
    (he : ∀ old, s.roots[key]? = some old → old.enabled = false →
      new.enabled = false ∨ Enables key a) : StaysClosed id s a s' where
  detached := by
    rintro ⟨old, ho, hold⟩
    by_cases hid : key = id
    · cases hid
      obtain hnew | hb := hd old ho hold
      · exact .inl ⟨new, by rw [hroots, insert_get, if_pos rfl], hnew⟩
      · exact .inr (.inl hb)
    · exact .inl ⟨old, by rw [hroots, insert_get, if_neg hid, ho], hold⟩
  disabled := by
    rintro ⟨old, ho, hold⟩
    by_cases hid : key = id
    · cases hid
      obtain hnew | hb := he old ho hold
      · exact .inl ⟨new, by rw [hroots, insert_get, if_pos rfl], hnew⟩
      · exact .inr (.inl hb)
    · exact .inl ⟨old, by rw [hroots, insert_get, if_neg hid, ho], hold⟩

/-- A call that answers with the record it put at the key, or is refused. -/
lemma StaysClosed.answer (key : String) {u : State} {outcome : Except String (ManagedRoot × Roots)}
    (hu : u.roots = s.roots)
    (hok : ∀ new roots, outcome = .ok (new, roots) → roots = s.roots.insert key new ∧
      ∀ old, s.roots[key]? = some old →
        (old.roomBindingStatus = .detached → new.roomBindingStatus = .detached ∨ BindsRoom key a) ∧
        (old.enabled = false → new.enabled = false ∨ Enables key a)) :
    StaysClosed id s a (u.answer outcome) := by
  cases outcome with
  | error e => exact .of_eq hu
  | ok o =>
    obtain ⟨hroots, hold⟩ := hok o.1 o.2 rfl
    exact .insert hroots (fun old ho => (hold old ho).1) fun old ho => (hold old ho).2

lemma bindRoom_ok {room : String} {new : ManagedRoot} {roots roots' : Roots}
    (h : bindRoom roots id room now = .ok (new, roots')) :
    roots' = roots.insert id new ∧ ∀ old, roots[id]? = some old → new.enabled = old.enabled := by
  unfold bindRoom at h
  split_ifs at h
  cases hg : ManagedRootStore.get roots id with
  | error e => simp [hg, bind, Except.bind] at h
  | ok root =>
    simp only [hg, bind, Except.bind, pure, Except.pure, Except.ok.injEq, Prod.mk.injEq] at h
    obtain ⟨rfl, rfl⟩ := h
    refine ⟨rfl, fun old ho => ?_⟩
    cases (get_ok.mp hg).symm.trans ho
    rfl

lemma staysClosed_bindRoom {u : State} {key room : String} (hu : u.roots = s.roots)
    (hb : BindsRoom key a) : StaysClosed id s a (u.answer (bindRoom s.roots key room now)) :=
  .answer key hu fun new roots h => by
    obtain ⟨hroots, henabled⟩ := bindRoom_ok h
    exact ⟨hroots, fun old ho => ⟨fun _ => .inr hb, fun he => .inl ((henabled old ho).trans he)⟩⟩

lemma staysClosed_updateState {key : String} {patch : ManagedRootStatePatch} :
    StaysClosed id s (.updateState key patch now)
      (s.answer (updateState s.roots key patch now)) := by
  refine .answer key rfl fun new roots h => ?_
  unfold updateState at h
  cases hg : ManagedRootStore.get s.roots key with
  | error e => simp [hg, bind, Except.bind] at h
  | ok root =>
    simp only [hg, bind, Except.bind, pure, Except.pure, Except.ok.injEq, Prod.mk.injEq] at h
    obtain ⟨rfl, rfl⟩ := h
    refine ⟨rfl, fun old ho => ?_⟩
    cases (get_ok.mp hg).symm.trans ho
    refine ⟨.inl, fun he => ?_⟩
    cases hp : patch.enabled with
    | none => exact .inl he
    | some b =>
      cases b with
      | false => exact .inl rfl
      | true => exact .inr ⟨rfl, hp⟩

lemma staysClosed_updateHealth {key : String} {status : ManagedRootStatus}
    {lastError : Option String} : StaysClosed id s (.updateHealth key status lastError now)
      (s.answer (updateHealth s.roots key status lastError now)) := by
  refine .answer key rfl fun new roots h => ?_
  unfold updateHealth at h
  cases hg : ManagedRootStore.get s.roots key with
  | error e => simp [hg, bind, Except.bind] at h
  | ok root =>
    simp only [hg, bind, Except.bind, pure, Except.pure, Except.ok.injEq, Prod.mk.injEq] at h
    obtain ⟨rfl, rfl⟩ := h
    refine ⟨rfl, fun old ho => ?_⟩
    cases (get_ok.mp hg).symm.trans ho
    exact ⟨.inl, .inl⟩

lemma staysClosed_upsert (hm : Remembers s (.upsert root)) :
    StaysClosed id s (.upsert root) (s.answer (ManagedRootStore.upsert s.roots root)) := by
  refine .answer root.rootId rfl fun new roots h => ?_
  by_cases ha : Accepts s.roots root
  · cases (upsert_accepted ha).symm.trans h
    refine ⟨rfl, fun old ho => ?_⟩
    obtain ⟨-, haccess⟩ := hm ha old ho
    simp only [ManagedRoot.access, Prod.mk.injEq] at haccess
    obtain ⟨-, hstatus, -, henabled⟩ := haccess
    exact ⟨fun hd => .inl (hstatus ▸ hd), fun he => .inl (henabled ▸ he)⟩
  · obtain ⟨e, he⟩ := upsert_refused ha
    cases he.symm.trans h

lemma staysClosed_detachRoom {room : String} {r : ManagedRoot} {roots : Roots}
    (h : detachRoom s.roots room now = some (r, roots)) :
    StaysClosed id s a (s.change roots [persist r]) := by
  obtain ⟨⟨key, old⟩, hf, he⟩ := Option.map_eq_some_iff.mp h
  cases he
  refine .insert rfl (fun _ _ _ => .inl rfl) fun e ho hoff => ?_
  have hkey : s.roots[key]? = some old :=
    Std.ExtTreeMap.mem_toList_iff_getElem?_eq_some.mp (List.mem_of_find?_eq_some hf)
  cases hkey.symm.trans ho
  exact .inl hoff

lemma staysClosed_detachAllRooms : StaysClosed id s a
    (s.change (detachAllRooms s.roots now).2 ((detachAllRooms s.roots now).1.map persist)) where
  detached := by
    rintro ⟨old, ho, hd⟩
    refine .inl ⟨_, by rw [State.change, detachAllRooms_get, ho, Option.map_some], ?_⟩
    split_ifs
    · rfl
    · exact hd
  disabled := by
    rintro ⟨old, ho, hd⟩
    refine .inl ⟨_, by rw [State.change, detachAllRooms_get, ho, Option.map_some], ?_⟩
    split_ifs <;> exact hd

lemma staysClosed_remove {key : String} {w : Write String ManagedRootRow} :
    StaysClosed id s (.remove key) (s.change (remove s.roots key).2 [w]) := by
  by_cases hid : key = id
  · exact ⟨fun _ => .inr (.inr (by rw [hid])), fun _ => .inr (.inr (by rw [hid]))⟩
  · have hget : (s.change (remove s.roots key).2 [w]).roots[id]? = s.roots[id]? := by
      simp [State.change, remove, Std.ExtTreeMap.getElem?_erase, hid]
    constructor
    · rintro ⟨old, ho, hd⟩
      exact .inl ⟨old, hget.trans ho, hd⟩
    · rintro ⟨old, ho, hd⟩
      exact .inl ⟨old, hget.trans ho, hd⟩

/-- **A step at which nothing is forgotten opens no folder but by a call that is meant to.** -/
lemma step_staysClosed (hm : Remembers s a) (hs : step s a = some s') : StaysClosed id s a s' := by
  unfold step at hs
  split_ifs at hs
  cases a with
  | upsert root =>
    cases hs
    exact staysClosed_upsert hm
  | updateState rootId patch now =>
    cases hs
    exact staysClosed_updateState
  | updateHealth rootId status lastError now =>
    cases hs
    exact staysClosed_updateHealth
  | bindRoom rootId roomId now =>
    cases hs
    exact staysClosed_bindRoom rfl rfl
  | ensureActiveRoomBinding rootId roomId =>
    rw [act] at hs
    split at hs <;> cases hs <;> exact .of_eq rfl
  | adopt rootId roomId now =>
    rw [act] at hs
    split_ifs at hs
    cases hs
    exact staysClosed_bindRoom rfl rfl
  | detachRoom roomId now =>
    rw [act] at hs
    split at hs <;> cases hs
    · exact staysClosed_detachRoom ‹_›
    · exact .of_eq rfl
  | detachAllRooms now =>
    cases hs
    exact staysClosed_detachAllRooms
  | remove rootId =>
    rw [act] at hs
    split at hs <;> cases hs
    · rename_i hr
      have hc : StaysClosed id s (.remove rootId)
          (s.change (remove s.roots rootId).2 [deletePersisted rootId]) := staysClosed_remove
      rwa [hr] at hc
    · exact .of_eq rfl
  | write call fails =>
    obtain ⟨⟨w, calls⟩, hn, rfl⟩ := Option.map_eq_some_iff.mp hs
    refine .of_eq ?_
    dsimp only
    split_ifs <;> rfl
  | restart =>
    cases hs
    exact .of_eq hm

/-! ### Registering again -/

/-- **Registering forgets something just where there is something to forget**, and where there
is not, a detached or disabled folder stays so until it is bound or enabled. -/
theorem registering_forgets_nothing_iff (s : State) (t : Tree) (path : RawPath) (now : ℤ)
    (fails : Bool) :
    (ForgetsNothing t path s (registerManagedRootInStore t path now fails s) ↔
      ∀ g, PathGuard.new t path = .ok g → Accepts s.roots (freshRoot g now) →
        NothingToForget s.roots (freshRoot g now) ∧ RowFollows s (freshRoot g now) fails) ∧
    ∀ bs s' id, Meets step Remembers s bs → run step s bs = some s' →
      (DetachedIn s.roots id →
        DetachedIn s'.roots id ∨ ∃ b ∈ bs, BindsRoom id b ∨ b = .remove id) ∧
      (DisabledIn s.roots id → DisabledIn s'.roots id ∨ ∃ b ∈ bs, Enables id b ∨ b = .remove id) :=
  ⟨forgetsNothing_iff, fun _ _ id hm hr =>
    ⟨fun hd => run_or_taken (I := fun s => DetachedIn s.roots id)
        (fun hd hm hs => (step_staysClosed hm hs).detached hd) hd hm hr,
      fun hd => run_or_taken (I := fun s => DisabledIn s.roots id)
        (fun hd hm hs => (step_staysClosed hm hs).disabled hd) hd hm hr⟩⟩

def work : Path := [⟨"work", validName_work⟩]

def withWork : Tree := .build [(work, .dir 1)]

/-- The folder is registered, bound to a room and detached from it, and every row is written. -/
def closing : List Action :=
  [.upsert (freshRoot ⟨work⟩ 1), .write 0 false,
    .bindRoom (managedRootId "/work") "room-1" 2, .write 1 false,
    .detachRoom "room-1" 3, .write 2 false]

def folderOf (s : State) : Option ManagedRoot := s.roots[managedRootId "/work"]?

def detachedWork : ManagedRoot :=
  { freshRoot ⟨work⟩ 1 with
    detachedRoomId := some "room-1"
    roomBindingStatus := .detached
    updatedUnixMs := 3 }

lemma withWork_guard : PathGuard.new withWork work.raw = .ok ⟨work⟩ := new_root (by decide +kernel)

lemma closing_folder : (run step start closing).map (fun s => (folderOf s,
    folderOf (registerManagedRootInStore withWork work.raw 4 false s))) =
    some (some detachedWork, some (freshRoot ⟨work⟩ 4)) := by
  decide +kernel

/-- What comes after the folder has been detached. -/
def later : List Action :=
  [.updateHealth (managedRootId "/work") .missing none 4,
    .upsert (.new "root:other" "/other" "other" 5)]

lemma later_meets (hs : run step start closing = some s) : Meets step Remembers s later := by
  refine ⟨trivial, fun u hu => ⟨fun _ old ho => ?_, fun _ _ => trivial⟩⟩
  have hnone : (run step start (closing ++ later.take 1)).map (·.roots["root:other"]?) =
      some none := by
    decide +kernel
  rw [run_append, hs, Option.bind_some, later, List.take, List.take, run, hu, Option.bind_some, run,
    Option.map_some] at hnone
  cases (Option.some.inj hnone).symm.trans ho

/-- A new folder is registered, and one that has been detached is still so after a health check
and another folder's registration. -/
theorem registering_forgets_nothing_iff_sample :
    ForgetsNothing withWork work.raw start
      (registerManagedRootInStore withWork work.raw 1 false start) ∧
    ∃ s s', run step start closing = some s ∧ run step s later = some s' ∧
      DetachedIn s'.roots (managedRootId "/work") := by
  refine ⟨(registering_forgets_nothing_iff ..).1.mpr fun g hg _ => ⟨?_, ?_⟩, ?_⟩
  · intro old ho
    simp [start] at ho
  · cases withWork_guard.symm.trans hg
    have hwritten : lost start (freshRoot ⟨work⟩ 1) false = false := by decide +kernel
    rw [RowFollows, hwritten, if_neg Bool.false_ne_true]
    intro row hrow
    simp [start] at hrow
  · obtain ⟨s, hs, hfolder⟩ := Option.map_eq_some_iff.mp closing_folder
    have hruns : (run step start (closing ++ later)).isSome := by decide +kernel
    rw [run_append, hs, Option.bind_some] at hruns
    obtain ⟨s', hs'⟩ := Option.isSome_iff_exists.mp hruns
    have h := ((registering_forgets_nothing_iff s withWork work.raw 4 false).2 later s'
      (managedRootId "/work") (later_meets hs) hs').1 ⟨detachedWork, congrArg Prod.fst hfolder, rfl⟩
    refine ⟨s, s', hs, hs', h.resolve_right ?_⟩
    simp [later, BindsRoom]

/-- The folder is registered again, and its record says that no room ever had it. -/
theorem not_registering_forgets_nothing : ¬ ∀ as s, run step start as = some s →
    ∀ t path now fails, ForgetsNothing t path s (registerManagedRootInStore t path now fails s) := by
  intro h
  obtain ⟨s, hs, hfolder⟩ := Option.map_eq_some_iff.mp closing_folder
  obtain ⟨hbefore, hafter⟩ := Prod.mk.inj hfolder
  obtain ⟨new, hn, -, haccess⟩ := (h closing s hs withWork work.raw 4 false).kept hbefore
    ⟨_, withWork_guard, rfl⟩
  cases hn.symm.trans hafter
  cases congrArg (·.2.1) haccess

end RootWrites

end MouseKeeper.Desktop
