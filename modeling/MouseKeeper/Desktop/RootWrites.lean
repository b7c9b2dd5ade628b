import MouseKeeper.Desktop.ManagedRoots
import MouseKeeper.Machine

/-!
The registry and its rows over runs.

A call changes the registry under its lock and writes the rows of the roots it changed
afterwards, one at a time, while other calls do the same. A write may fail, which ends its
call, and the process may end at any point; it then starts from the rows. The two stay
together if every write goes through, the writes of a root are taken in the order of its
changes, and the process does not end with a write outstanding.
-/

namespace MouseKeeper.Desktop.RootWrites

open MouseKeeper.Machine MouseKeeper.WriteBehind ManagedRootStore

structure State where
  running : Bool
  roots : Roots
  rows : Rows
  /-- What each call has yet to write, in the order in which the calls changed the registry. -/
  calls : List (List (Write String ManagedRootRow))
  /-- The calls of `ensure_active_room_binding` that are about to bind a root. -/
  adopting : List (String × String)

def start : State := ⟨true, ∅, ∅, [], []⟩

inductive Action
  | upsert (root : ManagedRoot)
  | updateState (rootId : String) (patch : ManagedRootStatePatch) (now : ℤ)
  | updateHealth (rootId : String) (status : ManagedRootStatus) (lastError : Option String)
    (now : ℤ)
  | bindRoom (rootId roomId : String) (now : ℤ)
  | ensureActiveRoomBinding (rootId roomId : String)
  | adopt (rootId roomId : String) (now : ℤ)
  | detachRoom (roomId : String) (now : ℤ)
  | detachAllRooms (now : ℤ)
  | remove (rootId : String)
  | write (call : ℕ) (fails : Bool)
  | restart
  deriving DecidableEq

def State.change (s : State) (roots : Roots) (ws : List (Write String ManagedRootRow)) : State :=
  { s with roots, calls := s.calls ++ [ws] }

/-- A call that is refused changes nothing. -/
def State.answer (s : State) : Except String (ManagedRoot × Roots) → State
  | .ok (root, roots) => s.change roots [persist root]
  | .error _ => s

def State.launch (s : State) : State :=
  match loadFromDb s.rows with
  | (rows, .ok roots) => ⟨true, roots, rows, [], []⟩
  | (rows, .error _) => ⟨false, ∅, rows, [], []⟩

def act (s : State) : Action → Option State
  | .upsert root => some (s.answer (upsert s.roots root))
  | .updateState rootId patch now => some (s.answer (updateState s.roots rootId patch now))
  | .updateHealth rootId status lastError now =>
    some (s.answer (updateHealth s.roots rootId status lastError now))
  | .bindRoom rootId roomId now => some (s.answer (bindRoom s.roots rootId roomId now))
  | .ensureActiveRoomBinding rootId roomId =>
    match checkActiveRoomBinding s.roots rootId roomId with
    | .ok none => some { s with adopting := s.adopting ++ [(rootId, roomId)] }
    | _ => some s
  | .adopt rootId roomId now =>
    if (rootId, roomId) ∈ s.adopting then
      some ({ s with adopting := s.adopting.erase (rootId, roomId) }.answer
        (bindRoom s.roots rootId roomId now))
    else none
  | .detachRoom roomId now =>
    match detachRoom s.roots roomId now with
    | some (root, roots) => some (s.change roots [persist root])
    | none => some s
  | .detachAllRooms now =>
    some (s.change (detachAllRooms s.roots now).2 ((detachAllRooms s.roots now).1.map persist))
  | .remove rootId =>
    match remove s.roots rootId with
    | (true, roots) => some (s.change roots [deletePersisted rootId])
    | (false, _) => some s
  | .write call fails =>
    (next s.calls call).map fun (w, calls) =>
      if fails || refused s.rows w then { s with calls := s.calls.set call [] }
      else { s with rows := w.apply s.rows, calls }
  | .restart => some s.launch

def step (s : State) (a : Action) : Option State :=
  if s.running ∨ a = .restart then act s a else none

/-- The rows keep up with the registry: a folder is registered unbound or with a room of
its own, a write goes through and does not overtake an earlier one of its root, and the
process ends with nothing left to write. -/
def InOrder (s : State) : Action → Prop
  | .upsert root => root.Consistent ∧ ∀ {k : String} {e : ManagedRoot} {room : String},
      s.roots[k]? = some e → k ≠ root.rootId → root.roomId = some room → e.roomId ≠ some room
  | .write call fails => fails = false ∧ ∀ w calls, next s.calls call = some (w, calls) →
      refused s.rows w = false ∧ InTurn s.calls call w.key
  | .restart => s.calls.flatten = []
  | _ => True

/-- The call that binds the root to a room. -/
def Binds (id : String) : Action → Prop
  | .upsert root => root.rootId = id
  | .bindRoom rootId _ _ | .adopt rootId _ _ => rootId = id
  | _ => False

def DetachedIn (roots : Roots) (id : String) : Prop :=
  ∃ root, roots[id]? = some root ∧ root.roomBindingStatus = .detached

/-- What the desktop relies on when it has come to a state: the registry is loaded and well
bound, a restart brings it back as it was, and a root that is detached is bound again only by
a call that binds it. From here on the steps meet the condition. -/
structure Faithful (ok : State → Action → Prop) (s : State) : Prop where
  running : s.running = true
  wellBound : WellBound s.roots
  restart : ∀ {s'}, ok s .restart → step s .restart = some s' →
    s'.running = true ∧ s'.roots = s.roots
  bound : ∀ {bs s' id}, Meets step ok s bs → run step s bs = some s' →
    DetachedIn s.roots id → ActiveIn s'.roots id → ∃ b ∈ bs, Binds id b

/-! ### What the steps keep -/

/-- The rows say what the registry says once what is left to write has been written. -/
structure Kept (s : State) : Prop where
  running : s.running = true
  wellBound : WellBound s.roots
  rows : ∀ id : String, (flush s.rows s.calls.flatten)[id]? = s.roots[id]?.map ManagedRoot.toRow

variable {s s' : State} {a : Action} {id : String}

lemma kept_start : Kept start := by
  refine ⟨rfl, ⟨?_, ?_, ?_, ?_⟩, ?_⟩ <;> simp [start]

/-- A step that is taken in order keeps the rows with the registry, and only a call that
binds a root makes it active. -/
structure StepKept (s : State) (a : Action) (s' : State) : Prop where
  kept : Kept s'
  active : ∀ {id}, ActiveIn s'.roots id → ActiveIn s.roots id ∨ Binds id a

lemma StepKept.of_eq (h : Kept s) (hroots : s'.roots = s.roots) (hrows : s'.rows = s.rows)
    (hcalls : s'.calls.flatten = s.calls.flatten) (hrun : s'.running = s.running) :
    StepKept s a s' where
  kept := ⟨hrun.trans h.running, hroots ▸ h.wellBound, by simpa [hroots, hrows, hcalls] using h.rows⟩
  active := fun ha => .inl (hroots ▸ ha)

lemma StepKept.change {roots : Roots} {ws : List (Write String ManagedRootRow)}
    {binds : Option String} {t : State} (h : Kept s) (hc : Change binds s.roots ws roots)
    (hb : ∀ {id}, binds = some id → Binds id a)
    (ht : t.running = s.running ∧ t.rows = s.rows ∧ t.calls = s.calls) :
    StepKept s a (t.change roots ws) where
  kept := by
    refine ⟨ht.1.trans h.running, hc.wellBound, fun id => ?_⟩
    simp only [State.change, ht.2, List.flatten_append, List.flatten_cons, List.flatten_nil,
      List.append_nil, flush_append]
    refine flush_eq (f := fun id => roots[id]?.map ManagedRoot.toRow) hc.written fun k hk => ?_
    rw [h.rows, hc.kept k hk]
  active := fun ha => (hc.active ha).imp_right hb

/-- A call that answers with the root it changed, or is refused. -/
lemma StepKept.answer {binds : Option String} {t : State}
    {outcome : Except String (ManagedRoot × Roots)} (h : Kept s)
    (hc : ∀ {root roots}, outcome = .ok (root, roots) →
      Change binds s.roots [persist root] roots)
    (hb : ∀ {id}, binds = some id → Binds id a)
    (ht : t.running = s.running ∧ t.roots = s.roots ∧ t.rows = s.rows ∧ t.calls = s.calls) :
    StepKept s a (t.answer outcome) := by
  obtain ⟨hrun, hroots, hrows, hcalls⟩ := ht
  cases outcome with
  | error e => exact .of_eq h hroots hrows (by rw [State.answer, hcalls]) hrun
  | ok o => exact .change h (hc rfl) hb ⟨hrun, hrows, hcalls⟩

lemma launch_eq (h : Kept s) (hw : s.calls.flatten = []) :
    s.launch = ⟨true, s.roots, s.rows, [], []⟩ := by
  have hrows : ∀ id : String, s.rows[id]? = s.roots[id]?.map ManagedRoot.toRow := by
    simpa [hw] using h.rows
  rw [State.launch, loadFromDb_eq h.wellBound hrows]

/-- A write in its turn brings the rows nearer to the registry. -/
lemma write_kept {call : ℕ} {fails : Bool} (h : Kept s) (hok : InOrder s (.write call fails))
    (hs : act s (.write call fails) = some s') : StepKept s (.write call fails) s' := by
  obtain ⟨⟨w, calls⟩, hn, rfl⟩ := Option.map_eq_some_iff.mp hs
  obtain ⟨rfl, hturn⟩ := hok
  obtain ⟨haccepted, hturn⟩ := hturn w calls hn
  simp only [haccepted, Bool.or_self, Bool.false_eq_true, if_false]
  refine ⟨⟨h.running, h.wellBound, fun id => ?_⟩, fun ha => .inl ha⟩
  rw [← h.rows]
  exact congrArg (·[id]?) (next_flush hn hturn)

lemma step_kept (h : Kept s) (hok : InOrder s a) (hs : step s a = some s') : StepKept s a s' := by
  rw [step, if_pos (.inl h.running)] at hs
  have hnone : ∀ {id : String}, none = some id → Binds id a := fun h' => by cases h'
  cases a with
  | upsert root =>
    cases hs
    exact .answer h (upsert_change h.wellBound hok.1 hok.2) (fun h' => Option.some.inj h')
      ⟨rfl, rfl, rfl, rfl⟩
  | updateState rootId patch now =>
    cases hs
    exact .answer h (updateState_change h.wellBound) hnone ⟨rfl, rfl, rfl, rfl⟩
  | updateHealth rootId status lastError now =>
    cases hs
    exact .answer h (updateHealth_change h.wellBound) hnone ⟨rfl, rfl, rfl, rfl⟩
  | bindRoom rootId roomId now =>
    cases hs
    exact .answer h (bindRoom_change h.wellBound) (fun h' => Option.some.inj h')
      ⟨rfl, rfl, rfl, rfl⟩
  | ensureActiveRoomBinding rootId roomId =>
    rw [act] at hs
    split at hs <;> cases hs <;> exact .of_eq h rfl rfl rfl rfl
  | adopt rootId roomId now =>
    rw [act] at hs
    split_ifs at hs
    cases hs
    exact .answer h (bindRoom_change h.wellBound) (fun h' => Option.some.inj h')
      ⟨rfl, rfl, rfl, rfl⟩
  | detachRoom roomId now =>
    rw [act] at hs
    split at hs <;> cases hs
    · exact .change h (detachRoom_change h.wellBound ‹_›) hnone ⟨rfl, rfl, rfl⟩
    · exact .of_eq h rfl rfl rfl rfl
  | detachAllRooms now =>
    cases hs
    exact .change h (detachAllRooms_change h.wellBound) hnone ⟨rfl, rfl, rfl⟩
  | remove rootId =>
    rw [act] at hs
    split at hs <;> cases hs
    · rename_i hr
      have hc : Change none s.roots [deletePersisted rootId] (remove s.roots rootId).2 :=
        remove_change h.wellBound
      rw [hr] at hc
      exact .change h hc hnone ⟨rfl, rfl, rfl⟩
    · exact .of_eq h rfl rfl rfl rfl
  | write call fails => exact write_kept h hok hs
  | restart =>
    cases hs
    rw [launch_eq h hok]
    exact .of_eq h rfl rfl (by rw [hok]; rfl) h.running.symm

lemma kept_of_run {as : List Action} (hok : Meets step InOrder start as)
    (hr : run step start as = some s) : Kept s :=
  run_invariant (fun h hok hs => (step_kept h hok hs).kept) kept_start hok hr

/-- A root that becomes active over a run is bound by one of its calls. -/
lemma binds_of_active {bs : List Action} (h : Kept s) (hok : Meets step InOrder s bs)
    (hr : run step s bs = some s') (hn : ¬ ActiveIn s.roots id) (ha : ActiveIn s'.roots id) :
    ∃ b ∈ bs, Binds id b := by
  have hrun : (Kept s' ∧ ¬ ActiveIn s'.roots id) ∨ ∃ b ∈ bs, Binds id b := by
    refine run_or_taken (I := fun s => Kept s ∧ ¬ ActiveIn s.roots id)
      (fun {s b t} hi hok ht => ?_) ⟨h, hn⟩ hok hr
    have hstep := step_kept hi.1 hok ht
    by_cases hat : ActiveIn t.roots id
    · exact .inr ((hstep.active hat).resolve_left hi.2)
    · exact .inl ⟨hstep.kept, hat⟩
  exact hrun.resolve_left fun h' => h'.2 ha

lemma not_active_of_detached (h : DetachedIn s.roots id) : ¬ ActiveIn s.roots id := by
  rintro ⟨r, hr, ha⟩
  obtain ⟨r', hr', hd⟩ := h
  rw [hr] at hr'
  cases hr'
  rw [ha] at hd
  cases hd

/-- A folder is registered and bound, and while its health is being written it is detached. -/
def overtaken : List Action :=
  [.upsert (.new "root-1" "/work" "work" 1), .write 0 false,
    .bindRoom "root-1" "room-1" 2, .write 1 false,
    .updateHealth "root-1" .ready none 3, .detachRoom "room-1" 4, .write 3 false, .write 2 false]

lemma overtaken_status : (run step start overtaken).map (fun s =>
    (s.roots["root-1"]?.map ManagedRoot.roomBindingStatus,
      s.launch.roots["root-1"]?.map ManagedRoot.roomBindingStatus)) =
    some (some .detached, some .active) := by
  decide +kernel

end MouseKeeper.Desktop.RootWrites
