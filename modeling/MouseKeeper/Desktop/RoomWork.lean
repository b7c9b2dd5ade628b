import MouseKeeper.Desktop.ManagedRoots
import MouseKeeper.Machine

/-!
The work that the rooms of the server have for the desktop.

Five processors take pending work from the server and look up the root that it is about. What
they then do takes time: a root is read, and the result is sent. A root may be detached,
disabled or bound to another room between any two points of any piece of work. Any number of
them may be in progress.

A withdrawn root serves nobody as long as no tool of the agent names it and no root is
withdrawn from work that has looked it up.
-/

namespace MouseKeeper.Desktop.RoomWork

open MouseKeeper.Machine ManagedRootStore

/-! ### Work -/

structure AgentCommand where
  commandType : String
  status : String
  roomId : String
  /-- The root that the payload names, if the payload can be read. -/
  payload : Except String (Option String)

structure AgentToolRequest where
  roomId : String
  aiDocumentAnalysisConsent : Option Bool
  toolName : String
  /-- `rootId` of the input. -/
  rootId : Option String

inductive Work
  | command (c : AgentCommand)
  | decision (roomId : String)
  | fileBrowse (roomId : String)
  | fileTransfer (roomId status : String)
  | agentTool (request : AgentToolRequest)

def Work.roomId : Work → String
  | .command c => c.roomId
  | .decision roomId | .fileBrowse roomId | .fileTransfer roomId _ => roomId
  | .agentTool request => request.roomId

/-- The root that a command must be about. -/
def Work.requestedRootId : Work → Option String
  | .command c => c.payload.toOption.join
  | _ => none

inductive Sent
  | rules | history | listing | documentText | file
  deriving DecidableEq

/-- A point of the work, where it may be held up. -/
inductive Point
  /-- A request to the server that has to go through. -/
  | request
  | rootIdForRoom
  | ensureActiveRoomBinding
  | get
  | read
  | change
  | send (what : Sent)
  deriving DecidableEq

/-- What reads the folder, changes it, or tells of it. -/
def Point.touches : Point → Bool
  | .read | .change | .send _ => true
  | _ => false

def isProcessableCommandStatus (status : String) : Bool :=
  status ∈ ["QUEUED", "DELIVERED", "ANALYZING"]

def isContractCommandWithoutDesktopHandler (commandType : String) : Bool :=
  commandType ∈ ["FIND", "DOWNLOAD", "UPLOAD"]

def isSupportedCommand (commandType : String) : Bool :=
  commandType ∈ ["ANALYZE", "RENAME", "MOVE", "TRASH", "CREATE", "ORGANIZE", "organize_files",
    "ORGANIZE_ROOT"]

def claimCommandForAnalysis (status : String) : List Point :=
  if status = "QUEUED" then [.request, .request]
  else if status = "DELIVERED" then [.request]
  else []

/-- A command only reads: what it proposes waits in the outbox. -/
def processCommand (command : AgentCommand) : List Point :=
  if isProcessableCommandStatus command.status then
    if isContractCommandWithoutDesktopHandler command.commandType then
      claimCommandForAnalysis command.status
    else if isSupportedCommand command.commandType then
      match command.payload with
      | .ok _ =>
        claimCommandForAnalysis command.status ++ [.rootIdForRoom, .ensureActiveRoomBinding, .read]
      | .error _ => []
    else []
  else []

/-- The execution is created before the root is looked up. -/
def processDecision : List Point :=
  [.request, .rootIdForRoom, .ensureActiveRoomBinding, .read, .change]

def processFileBrowse : List Point :=
  [.rootIdForRoom, .ensureActiveRoomBinding, .read, .send .listing]

def processFileTransfer (status : String) : List Point :=
  if status = "REQUESTED" then
    [.rootIdForRoom, .ensureActiveRoomBinding, .read, .request, .read, .send .file, .read]
  else []

def processAgentTool (request : AgentToolRequest) : List Point :=
  if request.toolName = "DOCUMENT_EXTRACT" then
    .get :: if request.aiDocumentAnalysisConsent.getD false then [.read, .send .documentText] else []
  else if request.toolName = "RULE_LIST" then [.get, .read, .send .rules]
  else if request.toolName = "OPERATION_HISTORY" then [.get, .read, .send .history]
  else []

def Work.points : Work → List Point
  | .command c => processCommand c
  | .decision _ => processDecision
  | .fileBrowse _ => processFileBrowse
  | .fileTransfer _ status => processFileTransfer status
  | .agentTool request => processAgentTool request

/-! ### Steps -/

/-- Whether the root has been looked up. -/
inductive Lookup
  | none
  /-- It has never been bound, and is about to be. -/
  | adopting
  | found (root : ManagedRoot)
  deriving DecidableEq

/-- A piece of work in progress. -/
structure Task where
  work : Work
  rootId : String
  lookup : Lookup
  rest : List Point

def Task.start (work : Work) : Task where
  work := work
  rootId := match work with
    | .agentTool request => request.rootId.getD ""
    | _ => ""
  lookup := .none
  rest := work.points

structure State where
  roots : Roots
  tasks : List Task

/-- What the user and the server do to the registry. -/
inductive RegistryCall
  | updateState (rootId : String) (patch : ManagedRootStatePatch) (now : ℤ)
  | updateHealth (rootId : String) (status : ManagedRootStatus) (lastError : Option String)
    (now : ℤ)
  | bindRoom (rootId roomId : String) (now : ℤ)
  | detachRoom (roomId : String) (now : ℤ)
  | detachAllRooms (now : ℤ)

/-- The registry after a call; one that is refused changes nothing. -/
def answered (roots : Roots) : Except String (ManagedRoot × Roots) → Roots
  | .ok (_, roots') => roots'
  | .error _ => roots

def RegistryCall.apply (roots : Roots) : RegistryCall → Roots
  | .updateState rootId patch now => answered roots (ManagedRootStore.updateState roots rootId patch now)
  | .updateHealth rootId status lastError now =>
    answered roots (ManagedRootStore.updateHealth roots rootId status lastError now)
  | .bindRoom rootId roomId now => answered roots (ManagedRootStore.bindRoom roots rootId roomId now)
  | .detachRoom roomId now => ((ManagedRootStore.detachRoom roots roomId now).map Prod.snd).getD roots
  | .detachAllRooms now => (ManagedRootStore.detachAllRooms roots now).2

/-- What the outside answers at a point. -/
inductive Answer
  | failed
  | more
  | done
  | room (rootAlias : String)

/-- A root that has been found is used if it is the one that was asked for and is enabled. -/
def Task.found (t : Task) (rest : List Point) (root : ManagedRoot) : Option Task :=
  if t.work.requestedRootId.all (· = root.rootId) ∧ root.enabled then
    some { t with lookup := .found root, rest }
  else none

/-- The work goes on from a point. Work that fails is over. -/
def Task.next (roots : Roots) (t : Task) (now : ℤ) (answer : Answer) : Option Task × Roots :=
  match t.rest with
  | [] => (none, roots)
  | .request :: rest =>
    match answer with
    | .done => (some { t with rest }, roots)
    | _ => (none, roots)
  | .rootIdForRoom :: rest =>
    match answer with
    | .room rootAlias => (some { t with rootId := rootAlias, rest }, roots)
    | _ => (none, roots)
  | .ensureActiveRoomBinding :: rest =>
    match t.lookup with
    | .adopting =>
      match bindRoom roots t.rootId t.work.roomId now with
      | .ok (root, roots') => (t.found rest root, roots')
      | .error _ => (none, roots)
    | _ =>
      match checkActiveRoomBinding roots t.rootId t.work.roomId with
      | .ok (some root) => (t.found rest root, roots)
      | .ok none => (some { t with lookup := .adopting }, roots)
      | .error _ => (none, roots)
  | .get :: rest =>
    match get roots t.rootId with
    | .ok root => (some { t with lookup := .found root, rest }, roots)
    | .error _ => (none, roots)
  | .read :: rest | .change :: rest | .send _ :: rest =>
    match answer with
    | .more => (some t, roots)
    | .done => (some { t with rest }, roots)
    | _ => (none, roots)

inductive Action
  | registry (call : RegistryCall)
  /-- A processor takes work from what the server lists. -/
  | take (work : Work)
  | proceed (task : ℕ) (now : ℤ) (answer : Answer)

def step (s : State) : Action → Option State
  | .registry call => some { s with roots := call.apply s.roots }
  | .take work => some { s with tasks := s.tasks ++ [.start work] }
  | .proceed task now answer =>
    s.tasks[task]?.map fun t =>
      match t.next s.roots now answer with
      | (some t', roots) => ⟨roots, s.tasks.set task t'⟩
      | (none, roots) => ⟨roots, s.tasks.eraseIdx task⟩

/-- The task that a step touches a folder for. -/
def touched (s : State) : Action → Option Task
  | .proceed task _ _ => s.tasks[task]?.filter fun t => t.rest.head?.any Point.touches
  | _ => none

/-! ### What must not happen -/

/-- The root is detached, or bound to another room. -/
def BoundElsewhere (roomId : String) (root : ManagedRoot) : Prop :=
  root.roomBindingStatus = .detached ∨ ∃ other, root.roomId = some other ∧ other ≠ roomId

/-- The root is not for the room: it is detached, disabled or bound to another one. -/
def Withdrawn (roots : Roots) (rootId roomId : String) : Prop :=
  ∃ root, roots[rootId]? = some root ∧ (BoundElsewhere roomId root ∨ root.enabled = false)

/-- The call gives the root back to the room. -/
def Restores (rootId roomId : String) : RegistryCall → Prop
  | .bindRoom id room _ => id = rootId ∧ room = roomId
  | .updateState id patch _ => id = rootId ∧ patch.enabled = some true
  | _ => False

/-- No work touches the folder of a root that is withdrawn from its room, and only the calls
that bind or enable a root take a withdrawal back. -/
structure ServesNobody (s : State) : Prop where
  untouched : ∀ {a t}, touched s a = some t → ¬ Withdrawn s.roots t.rootId t.work.roomId
  kept : ∀ {a s' rootId roomId}, step s a = some s' → Withdrawn s.roots rootId roomId →
    Withdrawn s'.roots rootId roomId ∨ ∃ call, a = .registry call ∧ Restores rootId roomId call

/-- The call takes the root away from the room. -/
def Withdraws (roots : Roots) (rootId roomId : String) : RegistryCall → Prop
  | .updateState id patch _ => id = rootId ∧ patch.enabled = some false
  | .updateHealth .. => False
  | .bindRoom id room _ => id = rootId ∧ room ≠ roomId
  | .detachRoom room _ =>
    (roots.toList.find? fun entry => holdsRoom room entry.2).map Prod.fst = some rootId
  | .detachAllRooms _ => roots[rootId]?.any isBound

/-- The call takes no root away from work that has looked it up. -/
def Spares (s : State) (call : RegistryCall) : Prop :=
  ∀ t ∈ s.tasks, t.lookup ≠ .none → ¬ Withdraws s.roots t.rootId t.work.roomId call

/-- No tool of the agent names a root that is withdrawn from its room, and no root is
withdrawn from work that has looked it up. -/
def InTime (s : State) : Action → Prop
  | .registry call => Spares s call
  | .take _ => True
  | .proceed task now _ => ∀ t, s.tasks[task]? = some t →
      (t.rest.head? = some .get → ¬ Withdrawn s.roots t.rootId t.work.roomId) ∧
      (t.lookup = .adopting → Spares s (.bindRoom t.rootId t.work.roomId now))

/-! ### Withdrawals -/

variable {roots roots' : Roots} {root r : ManagedRoot} {id room : String} {now : ℤ}

/-- What a call makes of a root. -/
inductive Turn (roots : Roots) (id : String) (call : RegistryCall) (root r : ManagedRoot) : Prop
  | same (room : r.roomId = root.roomId) (status : r.roomBindingStatus = root.roomBindingStatus)
      (enabled : r.enabled = root.enabled)
  | state (patch : ManagedRootStatePatch) (now : ℤ) (call : call = .updateState id patch now)
      (room : r.roomId = root.roomId) (status : r.roomBindingStatus = root.roomBindingStatus)
      (enabled : r.enabled = patch.enabled.getD root.enabled)
  | bound (roomId : String) (now : ℤ) (call : call = .bindRoom id roomId now)
      (room : r.roomId = some roomId) (status : r.roomBindingStatus = .active)
      (enabled : r.enabled = root.enabled)
  | detached (detaches : ∀ room, Withdraws roots id room call)
      (status : r.roomBindingStatus = .detached) (enabled : r.enabled = root.enabled)

lemma bindRoom_ok (hb : bindRoom roots id room now = .ok (r, roots')) :
    ∃ root, roots[id]? = some root ∧ roots' = roots.insert id r ∧
      r.roomId = some room ∧ r.roomBindingStatus = .active ∧ r.enabled = root.enabled := by
  unfold bindRoom at hb
  split_ifs at hb with hblank hany
  cases hg : ManagedRootStore.get roots id with
  | error e => simp [hg, bind, Except.bind] at hb
  | ok root =>
    simp only [hg, bind, Except.bind, pure, Except.pure, Except.ok.injEq, Prod.mk.injEq] at hb
    obtain ⟨rfl, rfl⟩ := hb
    exact ⟨root, get_ok.mp hg, rfl, rfl, rfl, rfl⟩

lemma updateState_ok {patch : ManagedRootStatePatch}
    (hu : updateState roots id patch now = .ok (r, roots')) :
    ∃ root, roots[id]? = some root ∧ roots' = roots.insert id r ∧
      r.roomId = root.roomId ∧ r.roomBindingStatus = root.roomBindingStatus ∧
      r.enabled = patch.enabled.getD root.enabled := by
  unfold updateState at hu
  cases hg : ManagedRootStore.get roots id with
  | error e => simp [hg, bind, Except.bind] at hu
  | ok root =>
    simp only [hg, bind, Except.bind, pure, Except.pure, Except.ok.injEq, Prod.mk.injEq] at hu
    obtain ⟨rfl, rfl⟩ := hu
    exact ⟨root, get_ok.mp hg, rfl, rfl, rfl, rfl⟩

lemma updateHealth_ok {status : ManagedRootStatus} {lastError : Option String}
    (hu : updateHealth roots id status lastError now = .ok (r, roots')) :
    ∃ root, roots[id]? = some root ∧ roots' = roots.insert id r ∧
      r.roomId = root.roomId ∧ r.roomBindingStatus = root.roomBindingStatus ∧
      r.enabled = root.enabled := by
  unfold updateHealth at hu
  cases hg : ManagedRootStore.get roots id with
  | error e => simp [hg, bind, Except.bind] at hu
  | ok root =>
    simp only [hg, bind, Except.bind, pure, Except.pure, Except.ok.injEq, Prod.mk.injEq] at hu
    obtain ⟨rfl, rfl⟩ := hu
    exact ⟨root, get_ok.mp hg, rfl, rfl, rfl, rfl⟩

lemma Turn.refl {call : RegistryCall} : Turn roots id call root root := .same rfl rfl rfl

/-- Where a root has been put in, only that one has changed. -/
lemma turn_insert {call : RegistryCall} {id' : String} {old : ManagedRoot}
    (hr : roots[id]? = some root) (hold : roots[id']? = some old)
    (ht : id' = id → Turn roots id call old r) :
    ∃ r', (roots.insert id' r)[id]? = some r' ∧ Turn roots id call root r' := by
  rw [Std.ExtTreeMap.getElem?_insert]
  split_ifs with hcmp
  · obtain rfl := Std.LawfulEqCmp.eq_of_compare hcmp
    obtain rfl := Option.some.inj (hold.symm.trans hr)
    exact ⟨r, rfl, ht rfl⟩
  · exact ⟨root, hr, .refl⟩

/-- What a call does to a root that is there. -/
lemma apply_turn (call : RegistryCall) (hr : roots[id]? = some root) :
    ∃ r, (call.apply roots)[id]? = some r ∧ Turn roots id call root r := by
  have hsame : ∃ r, roots[id]? = some r ∧ Turn roots id call root r := ⟨root, hr, .refl⟩
  cases call with
  | updateState id' patch now =>
    cases hu : updateState roots id' patch now with
    | error e => simpa [RegistryCall.apply, hu, answered] using hsame
    | ok res =>
      obtain ⟨old, hold, hroots, hroom, hstatus, henabled⟩ := updateState_ok hu
      simp only [RegistryCall.apply, hu, answered, hroots]
      exact turn_insert hr hold fun h => .state patch now (by rw [h]) hroom hstatus henabled
  | updateHealth id' status lastError now =>
    cases hu : updateHealth roots id' status lastError now with
    | error e => simpa [RegistryCall.apply, hu, answered] using hsame
    | ok res =>
      obtain ⟨old, hold, hroots, hroom, hstatus, henabled⟩ := updateHealth_ok hu
      simp only [RegistryCall.apply, hu, answered, hroots]
      exact turn_insert hr hold fun _ => .same hroom hstatus henabled
  | bindRoom id' room now =>
    cases hb : bindRoom roots id' room now with
    | error e => simpa [RegistryCall.apply, hb, answered] using hsame
    | ok res =>
      obtain ⟨old, hold, hroots, hroom, hstatus, henabled⟩ := bindRoom_ok hb
      simp only [RegistryCall.apply, hb, answered, hroots]
      exact turn_insert hr hold fun h => .bound room now (by rw [h]) hroom hstatus henabled
  | detachRoom room now =>
    cases hf : roots.toList.find? fun entry => holdsRoom room entry.2 with
    | none => simpa [RegistryCall.apply, detachRoom, hf] using hsame
    | some entry =>
      have hentry : roots[entry.1]? = some entry.2 :=
        Std.ExtTreeMap.mem_toList_iff_getElem?_eq_some.mp (List.mem_of_find?_eq_some hf)
      simp only [RegistryCall.apply, detachRoom, hf, Option.map_some, Option.getD_some]
      exact turn_insert hr hentry fun h => .detached (fun _ => by simp [Withdraws, hf, h]) rfl rfl
  | detachAllRooms now =>
    have hget : (ManagedRootStore.detachAllRooms roots now).2[id]? = _ := detachAllRooms_get
    rw [hr, Option.map_some] at hget
    refine ⟨_, hget, ?_⟩
    split_ifs with hb
    · exact .detached (fun _ => by simp [Withdraws, hr, hb]) rfl rfl
    · exact .refl

/-- A root that is not there stays away. -/
lemma apply_none (call : RegistryCall) (hr : roots[id]? = none) : (call.apply roots)[id]? = none := by
  have hinsert : ∀ {id' : String} {old r : ManagedRoot}, roots[id']? = some old →
      (roots.insert id' r)[id]? = none := fun {id' old r} hold => by
    rw [Std.ExtTreeMap.getElem?_insert]
    split_ifs with hcmp
    · obtain rfl := Std.LawfulEqCmp.eq_of_compare hcmp
      cases hold.symm.trans hr
    · exact hr
  cases call with
  | updateState id' patch now =>
    cases hu : updateState roots id' patch now with
    | error e => simpa [RegistryCall.apply, hu, answered] using hr
    | ok res =>
      obtain ⟨old, hold, hroots, -⟩ := updateState_ok hu
      simpa only [RegistryCall.apply, hu, answered, hroots] using hinsert hold
  | updateHealth id' status lastError now =>
    cases hu : updateHealth roots id' status lastError now with
    | error e => simpa [RegistryCall.apply, hu, answered] using hr
    | ok res =>
      obtain ⟨old, hold, hroots, -⟩ := updateHealth_ok hu
      simpa only [RegistryCall.apply, hu, answered, hroots] using hinsert hold
  | bindRoom id' room now =>
    cases hb : bindRoom roots id' room now with
    | error e => simpa [RegistryCall.apply, hb, answered] using hr
    | ok res =>
      obtain ⟨old, hold, hroots, -⟩ := bindRoom_ok hb
      simpa only [RegistryCall.apply, hb, answered, hroots] using hinsert hold
  | detachRoom room now =>
    cases hf : roots.toList.find? fun entry => holdsRoom room entry.2 with
    | none => simpa [RegistryCall.apply, detachRoom, hf] using hr
    | some entry =>
      have hentry : roots[entry.1]? = some entry.2 :=
        Std.ExtTreeMap.mem_toList_iff_getElem?_eq_some.mp (List.mem_of_find?_eq_some hf)
      simpa only [RegistryCall.apply, detachRoom, hf, Option.map_some, Option.getD_some] using
        hinsert hentry
  | detachAllRooms now =>
    have hget : (detachAllRooms roots now).2[id]? = _ := detachAllRooms_get
    rwa [hr, Option.map_none] at hget

lemma Turn.kept {call : RegistryCall} (ht : Turn roots id call root r)
    (hw : BoundElsewhere room root ∨ root.enabled = false) :
    (BoundElsewhere room r ∨ r.enabled = false) ∨ Restores id room call := by
  cases ht with
  | same hroom hstatus henabled => exact .inl (by rwa [BoundElsewhere, hroom, hstatus, henabled])
  | state patch now hc hroom hstatus henabled =>
    subst hc
    rcases hw with hb | he
    · exact .inl (.inl (by rwa [BoundElsewhere, hroom, hstatus]))
    · cases hp : patch.enabled with
      | none => exact .inl (.inr (by rw [henabled, hp, Option.getD_none, he]))
      | some b =>
        cases b with
        | false => exact .inl (.inr (by rw [henabled, hp, Option.getD_some]))
        | true => exact .inr ⟨rfl, hp⟩
  | bound x now hc hroom hstatus henabled =>
    subst hc
    by_cases hx : x = room
    · exact .inr ⟨rfl, hx⟩
    · exact .inl (.inl (.inr ⟨x, hroom, hx⟩))
  | detached hd hstatus henabled => exact .inl (.inl (.inl hstatus))

lemma Turn.not_elsewhere {call : RegistryCall} (ht : Turn roots id call root r)
    (hn : ¬ BoundElsewhere room root) (hspare : ¬ Withdraws roots id room call) :
    ¬ BoundElsewhere room r := by
  cases ht with
  | same hroom hstatus henabled => rwa [BoundElsewhere, hroom, hstatus]
  | state patch now hc hroom hstatus henabled => rwa [BoundElsewhere, hroom, hstatus]
  | bound x now hc hroom hstatus henabled =>
    subst hc
    rintro (hd | ⟨other, ho, hne⟩)
    · cases hstatus.symm.trans hd
    · obtain rfl : x = other := Option.some.inj (hroom.symm.trans ho)
      exact hspare ⟨rfl, hne⟩
  | detached hd hstatus henabled => exact absurd (hd room) hspare

lemma Turn.enabled {call : RegistryCall} (ht : Turn roots id call root r)
    (he : root.enabled = true) (hspare : ¬ Withdraws roots id room call) : r.enabled = true := by
  cases ht with
  | same hroom hstatus henabled => rw [henabled, he]
  | state patch now hc hroom hstatus henabled =>
    subst hc
    cases hp : patch.enabled with
    | none => rw [henabled, hp, Option.getD_none, he]
    | some b =>
      cases b with
      | false => exact absurd ⟨rfl, hp⟩ hspare
      | true => rw [henabled, hp, Option.getD_some]
  | bound x now hc hroom hstatus henabled => rw [henabled, he]
  | detached hd hstatus henabled => rw [henabled, he]

lemma Turn.enabled_bindRoom {room' : String} (ht : Turn roots id (.bindRoom id room' now) root r) :
    r.enabled = root.enabled := by
  cases ht with
  | same _ _ henabled => exact henabled
  | state _ _ hc => cases hc
  | bound _ _ _ _ _ henabled => exact henabled
  | detached _ _ henabled => exact henabled

/-- A withdrawal lasts until a call takes it back. -/
lemma withdrawn_apply (call : RegistryCall) (hw : Withdrawn roots id room) :
    Withdrawn (call.apply roots) id room ∨ Restores id room call := by
  obtain ⟨root, hr, hw⟩ := hw
  obtain ⟨r, hr', ht⟩ := apply_turn call hr
  exact (ht.kept hw).imp_left fun h => ⟨r, hr', h⟩

/-! ### Work that has looked its root up -/

/-- The root may be used for the room, once it has been enabled and bound. -/
def Free (roots : Roots) (id room : String) : Prop :=
  ∀ root, roots[id]? = some root → ¬ BoundElsewhere room root

lemma Free.apply {call : RegistryCall} (h : Free roots id room)
    (hspare : ¬ Withdraws roots id room call) : Free (call.apply roots) id room := by
  intro r hr'
  cases hr : roots[id]? with
  | none => cases (apply_none call hr).symm.trans hr'
  | some root =>
    obtain ⟨r', hr'', ht⟩ := apply_turn call hr
    obtain rfl : r' = r := Option.some.inj (hr''.symm.trans hr')
    exact ht.not_elsewhere (h root hr) hspare

lemma not_withdrawn_apply {call : RegistryCall} (h : ¬ Withdrawn roots id room)
    (hspare : ¬ Withdraws roots id room call) : ¬ Withdrawn (call.apply roots) id room := by
  rintro ⟨r, hr', hw⟩
  cases hr : roots[id]? with
  | none => cases (apply_none call hr).symm.trans hr'
  | some root =>
    obtain ⟨r', hr'', ht⟩ := apply_turn call hr
    obtain rfl : r' = r := Option.some.inj (hr''.symm.trans hr')
    have hroot : ¬ (BoundElsewhere room root ∨ root.enabled = false) := fun h' => h ⟨root, hr, h'⟩
    obtain ⟨hb, he⟩ := not_or.mp hroot
    rcases hw with hw | hw
    · exact ht.not_elsewhere hb hspare hw
    · cases (ht.enabled (by simpa using he) hspare).symm.trans hw

def Point.looks : Point → Bool
  | .rootIdForRoom | .ensureActiveRoomBinding | .get => true
  | _ => false

def Settled (points : List Point) : Prop := ∀ p ∈ points, p.looks = false

/-- Nothing is touched before a root has been looked up, and it is looked up once. -/
def LooksFirst : List Point → Prop
  | [] => True
  | .request :: rest | .rootIdForRoom :: rest => LooksFirst rest
  | .ensureActiveRoomBinding :: rest | .get :: rest => Settled rest
  | _ => False

lemma looksFirst_claim {status : String} {points : List Point} (h : LooksFirst points) :
    LooksFirst (claimCommandForAnalysis status ++ points) := by
  unfold claimCommandForAnalysis
  split_ifs <;> exact h

lemma looksFirst_points (work : Work) : LooksFirst work.points := by
  cases work with
  | command c =>
    simp only [Work.points, processCommand]
    split_ifs
    · have h : LooksFirst (claimCommandForAnalysis c.status ++ []) := looksFirst_claim trivial
      rwa [List.append_nil] at h
    · cases c.payload with
      | ok _ => exact looksFirst_claim (by simp [LooksFirst, Settled, Point.looks])
      | error _ => trivial
    · trivial
    · trivial
  | decision roomId => simp [Work.points, processDecision, LooksFirst, Settled, Point.looks]
  | fileBrowse roomId => simp [Work.points, processFileBrowse, LooksFirst, Settled, Point.looks]
  | fileTransfer roomId status =>
    simp only [Work.points, processFileTransfer]
    split_ifs <;> simp [LooksFirst, Settled, Point.looks]
  | agentTool request =>
    simp only [Work.points, processAgentTool]
    split_ifs <;> simp [LooksFirst, Settled, Point.looks]

/-- Work looks its root up before it touches the folder, and the root is still there for it. -/
def Task.Sound (roots : Roots) (t : Task) : Prop :=
  match t.lookup with
  | .none => LooksFirst t.rest
  | .adopting => (∃ rest, t.rest = .ensureActiveRoomBinding :: rest ∧ Settled rest) ∧
      Free roots t.rootId t.work.roomId
  | .found _ => Settled t.rest ∧ ¬ Withdrawn roots t.rootId t.work.roomId

lemma Task.Sound.apply {t : Task} {call : RegistryCall} (h : t.Sound roots)
    (hspare : t.lookup ≠ .none → ¬ Withdraws roots t.rootId t.work.roomId call) :
    t.Sound (call.apply roots) := by
  unfold Task.Sound at h ⊢
  cases hl : t.lookup with
  | none => simpa only [hl] using h
  | adopting =>
    rw [hl] at h
    exact ⟨h.1, h.2.apply (hspare (by simp [hl]))⟩
  | found root =>
    rw [hl] at h
    exact ⟨h.1, not_withdrawn_apply h.2 (hspare (by simp [hl]))⟩

lemma Task.Sound.start (work : Work) : (Task.start work).Sound roots := looksFirst_points work

lemma checked_some (h : checkActiveRoomBinding roots id room = .ok (some root)) :
    roots[id]? = some root ∧ ¬ BoundElsewhere room root := by
  unfold checkActiveRoomBinding at h
  cases hg : ManagedRootStore.get roots id with
  | error e => simp [hg, bind, Except.bind] at h
  | ok r =>
    simp only [hg, bind, Except.bind, pure, Except.pure, throw, throwThe, MonadExceptOf.throw] at h
    split at h
    · next boundRoom hstatus hroom =>
      split_ifs at h with heq
      obtain rfl := Option.some.inj (Except.ok.inj h)
      refine ⟨get_ok.mp hg, ?_⟩
      rintro (hd | ⟨other, ho, hne⟩)
      · cases hstatus.symm.trans hd
      · exact hne ((Option.some.inj (ho.symm.trans hroom)).trans heq)
    all_goals cases h

lemma checked_none (h : checkActiveRoomBinding roots id room = .ok none) : Free roots id room := by
  unfold checkActiveRoomBinding at h
  cases hg : ManagedRootStore.get roots id with
  | error e => simp [hg, bind, Except.bind] at h
  | ok r =>
    simp only [hg, bind, Except.bind, pure, Except.pure, throw, throwThe, MonadExceptOf.throw] at h
    split at h
    · split_ifs at h
      cases h
    · next hstatus hroom =>
      intro root hr
      obtain rfl : r = root := Option.some.inj ((get_ok.mp hg).symm.trans hr)
      rintro (hd | ⟨other, ho, -⟩)
      · cases hstatus.symm.trans hd
      · cases hroom.symm.trans ho
    all_goals cases h

lemma Task.found_sound {t t' : Task} {rest : List Point} (hf : t.found rest root = some t')
    (hr : roots[t.rootId]? = some root) (hfree : ¬ BoundElsewhere t.work.roomId root)
    (hsettled : Settled rest) : t'.Sound roots := by
  unfold Task.found at hf
  split_ifs at hf with hok
  obtain rfl := Option.some.inj hf
  refine ⟨hsettled, fun hw => ?_⟩
  obtain ⟨root', hr', hw⟩ := hw
  obtain rfl : root = root' := Option.some.inj (hr.symm.trans hr')
  rcases hw with hb | he
  · exact hfree hb
  · cases hok.2.symm.trans he

/-- The registry changes only where a root is adopted. -/
lemma next_roots (t : Task) (now : ℤ) (answer : Answer) :
    (t.next roots now answer).2 = roots ∨ t.lookup = .adopting ∧ (t.next roots now answer).2 =
      (RegistryCall.bindRoom t.rootId t.work.roomId now).apply roots := by
  unfold Task.next
  split
  · exact .inl rfl
  · cases answer <;> exact .inl rfl
  · cases answer <;> exact .inl rfl
  · split
    · next hl =>
      refine .inr ⟨hl, ?_⟩
      cases hb : ManagedRootStore.bindRoom roots t.rootId t.work.roomId now <;>
        simp [RegistryCall.apply, answered, hb]
    · split <;> exact .inl rfl
  · split <;> exact .inl rfl
  all_goals cases answer <;> exact .inl rfl

/-- Sound work that goes on is sound work. -/
lemma Task.Sound.next {t t' : Task} {answer : Answer} (h : t.Sound roots)
    (hget : t.rest.head? = some .get → ¬ Withdrawn roots t.rootId t.work.roomId)
    (hn : t.next roots now answer = (some t', roots')) : t'.Sound roots' := by
  unfold Task.next at hn
  obtain ⟨work, rootId, lookup, rest⟩ := t
  have hsettled : ∀ {p rest'}, rest = p :: rest' → Settled rest → Settled rest' :=
    fun hp hs q hq => hs q (hp ▸ List.mem_cons_of_mem _ hq)
  cases rest with
  | nil => simp at hn
  | cons p rest =>
    cases hp : p with
    | request =>
      subst hp
      cases answer <;> simp only [Prod.mk.injEq, reduceCtorEq, false_and, Option.some.injEq] at hn
      obtain ⟨rfl, rfl⟩ := hn
      cases lookup with
      | none => exact h
      | adopting => obtain ⟨⟨_, hc, _⟩, _⟩ := h; cases hc
      | found root => exact ⟨hsettled rfl h.1, h.2⟩
    | rootIdForRoom =>
      subst hp
      cases answer <;> simp only [Prod.mk.injEq, reduceCtorEq, false_and, Option.some.injEq] at hn
      obtain ⟨rfl, rfl⟩ := hn
      cases lookup with
      | none => exact h
      | adopting => obtain ⟨⟨_, hc, _⟩, _⟩ := h; cases hc
      | found root => cases h.1 _ List.mem_cons_self
    | ensureActiveRoomBinding =>
      subst hp
      cases lookup with
      | none =>
        simp only at hn
        split at hn
        · next root hc =>
          obtain ⟨hf, rfl⟩ := Prod.mk.inj hn
          obtain ⟨hr, hfree⟩ := checked_some hc
          exact Task.found_sound hf hr hfree h
        · next hc =>
          obtain ⟨hf, rfl⟩ := Prod.mk.inj hn
          obtain rfl := Option.some.inj hf
          exact ⟨⟨rest, rfl, h⟩, checked_none hc⟩
        · cases hn
      | adopting =>
        obtain ⟨⟨rest', hc, hs⟩, -⟩ := h
        obtain rfl : rest = rest' := (List.cons.inj hc).2
        simp only at hn
        split at hn
        · next root roots₁ hb =>
          obtain ⟨hf, rfl⟩ := Prod.mk.inj hn
          obtain ⟨old, -, hroots, hroom, hstatus, -⟩ := bindRoom_ok hb
          refine Task.found_sound hf (by simp [hroots]) ?_ hs
          rintro (hd | ⟨other, ho, hne⟩)
          · cases hstatus.symm.trans hd
          · exact hne (Option.some.inj (ho.symm.trans hroom))
        · cases hn
      | found root => cases h.1 _ List.mem_cons_self
    | get =>
      subst hp
      simp only at hn
      split at hn
      · next root hg =>
        obtain ⟨hf, rfl⟩ := Prod.mk.inj hn
        obtain rfl := Option.some.inj hf
        cases lookup with
        | none => exact ⟨h, hget rfl⟩
        | adopting => obtain ⟨⟨_, hc, _⟩, _⟩ := h; cases hc
        | found root => cases h.1 _ List.mem_cons_self
      · cases hn
    | read | change | send what =>
      subst hp
      cases lookup with
      | none => exact h.elim
      | adopting => obtain ⟨⟨_, hc, _⟩, _⟩ := h; cases hc
      | found root =>
        cases answer <;> simp only [Prod.mk.injEq, reduceCtorEq, false_and, Option.some.injEq] at hn
        · obtain ⟨rfl, rfl⟩ := hn
          exact h
        · obtain ⟨rfl, rfl⟩ := hn
          exact ⟨hsettled rfl h.1, h.2⟩

/-! ### Runs -/

variable {s s' : State} {a : Action}

def Sound (s : State) : Prop := ∀ t ∈ s.tasks, t.Sound s.roots

lemma Sound.apply {call : RegistryCall} (h : Sound s) (hspare : Spares s call) :
    ∀ t ∈ s.tasks, t.Sound (call.apply s.roots) :=
  fun t ht => (h t ht).apply (hspare t ht)

lemma Sound.step (h : Sound s) (hin : InTime s a) (hs : step s a = some s') : Sound s' := by
  cases a with
  | registry call =>
    cases hs
    exact h.apply hin
  | take work =>
    cases hs
    intro t ht
    rcases List.mem_append.mp ht with ht | ht
    · exact h t ht
    · obtain rfl := List.mem_singleton.mp ht
      exact .start work
  | proceed task now answer =>
    obtain ⟨t, ht, hs⟩ := Option.map_eq_some_iff.mp hs
    obtain ⟨hget, hspare⟩ := hin t ht
    have hothers : ∀ u ∈ s.tasks, u.Sound (t.next s.roots now answer).2 := by
      rcases @next_roots s.roots t now answer with hr | ⟨hl, hr⟩
      · rw [hr]
        exact h
      · rw [hr]
        exact h.apply (hspare hl)
    have hself : ∀ t', (t.next s.roots now answer).1 = some t' →
        t'.Sound (t.next s.roots now answer).2 :=
      fun t' ht' => (h t (List.mem_of_getElem? ht)).next hget (Prod.ext ht' rfl)
    split at hs
    · next t' roots' hn =>
      cases hs
      rw [hn] at hothers hself
      intro u hu
      rcases List.mem_or_eq_of_mem_set hu with hu | rfl
      · exact hothers u hu
      · exact hself u rfl
    · next roots' hn =>
      cases hs
      rw [hn] at hothers
      exact fun u hu => hothers u (List.mem_of_mem_eraseIdx hu)

lemma Sound.servesNobody (h : Sound s) : ServesNobody s where
  untouched := by
    intro a t ht
    cases a with
    | registry call => cases ht
    | take work => cases ht
    | proceed task now answer =>
      obtain ⟨hmem, htouch⟩ := Option.filter_eq_some_iff.mp ht
      have hsound := h t (List.mem_of_getElem? hmem)
      obtain ⟨work, rootId, lookup, rest⟩ := t
      cases lookup with
      | found root => exact hsound.2
      | adopting =>
        obtain ⟨⟨rest', hc, -⟩, -⟩ := hsound
        cases hc
        cases htouch
      | none =>
        cases rest with
        | nil => cases htouch
        | cons p rest => cases p <;> first | exact hsound.elim | cases htouch
  kept := by
    intro a s' rootId roomId hs hw
    cases a with
    | registry call =>
      cases hs
      exact (withdrawn_apply call hw).imp_right fun hr => ⟨call, rfl, hr⟩
    | take work =>
      cases hs
      exact .inl hw
    | proceed task now answer =>
      obtain ⟨t, ht, hs⟩ := Option.map_eq_some_iff.mp hs
      have hroots : s'.roots = (t.next s.roots now answer).2 := by
        split at hs
        · next hn => rw [hn, ← hs]
        · next hn => rw [hn, ← hs]
      left
      rcases @next_roots s.roots t now answer with hr | ⟨hl, hr⟩
      · rwa [hroots, hr]
      · rw [hroots, hr]
        rcases withdrawn_apply (.bindRoom t.rootId t.work.roomId now) hw with hw' | ⟨rfl, rfl⟩
        · exact hw'
        · -- The root that is adopted is free for the room, so it can only be disabled.
          have hsound := h t (List.mem_of_getElem? ht)
          rw [Task.Sound, hl] at hsound
          obtain ⟨root, hroot, hb | he⟩ := hw
          · exact absurd hb (hsound.2 root hroot)
          · obtain ⟨r, hr', hturn⟩ := apply_turn (.bindRoom t.rootId t.work.roomId now) hroot
            exact ⟨r, hr', .inr (hturn.enabled_bindRoom.trans he)⟩

/-- **A withdrawn root serves nobody** in a run that no tool of the agent and no withdrawal
spoils: from any registry, with any work and any answers, in any order. -/
theorem withdrawn_serves_nobody {as : List Action} (hin : Meets step InTime ⟨roots, []⟩ as)
    (hr : run step ⟨roots, []⟩ as = some s) : ServesNobody s :=
  (run_invariant Sound.step (fun _ ht => absurd ht List.not_mem_nil) hin hr).servesNobody

/-- A registry with one root, which is for `room-1`. -/
def oneRoot : Roots :=
  (∅ : Roots).insert "root-1"
    { ManagedRoot.new "root-1" "/work" "work" 1 with
      roomId := some "room-1", roomBindingStatus := .active }

/-- The folder is browsed, and then its room is detached. -/
theorem withdrawn_serves_nobody_sample : ∃ s, run step ⟨oneRoot, []⟩
    [.take (.fileBrowse "room-1"), .registry (.detachRoom "room-1" 2)] = some s ∧
      ServesNobody s := by
  have hin : Meets step InTime ⟨oneRoot, []⟩
      [.take (.fileBrowse "room-1"), .registry (.detachRoom "room-1" 2)] := by
    refine ⟨trivial, fun s hs => ⟨?_, fun _ _ => trivial⟩⟩
    cases hs
    intro t ht hl
    obtain rfl := List.mem_singleton.mp ht
    exact absurd rfl hl
  exact ⟨_, rfl, withdrawn_serves_nobody hin rfl⟩

/-- A request for the rules of a root. -/
def ruleList : AgentToolRequest := ⟨"room-1", none, "RULE_LIST", some "root-1"⟩

/-- The room is detached, and the agent asks for the rules of its root. -/
def askedAfterDetach : List Action :=
  [.registry (.detachRoom "room-1" 2), .take (.agentTool ruleList), .proceed 0 3 .done]

lemma askedAfterDetach_touches : (run step ⟨oneRoot, []⟩ askedAfterDetach).map (fun s =>
    ((touched s (.proceed 0 4 .done)).map fun t => (t.rootId, t.work.roomId),
      s.roots["root-1"]?.map ManagedRoot.roomBindingStatus)) =
    some (some ("root-1", "room-1"), some .detached) := by
  decide +kernel

/-- The rules of the detached root are read. -/
theorem not_withdrawn_serves_nobody : ¬ ∀ (roots : Roots) as s,
    run step ⟨roots, []⟩ as = some s → ServesNobody s := by
  intro h
  obtain ⟨s, hs, htouch⟩ := Option.map_eq_some_iff.mp askedAfterDetach_touches
  obtain ⟨ht, hstatus⟩ := Prod.mk.inj htouch
  obtain ⟨t, ht, hids⟩ := Option.map_eq_some_iff.mp ht
  obtain ⟨root, hroot, hd⟩ := Option.map_eq_some_iff.mp hstatus
  refine (h oneRoot askedAfterDetach s hs).untouched ht ⟨root, ?_, .inl (.inl hd)⟩
  rw [(Prod.mk.inj hids).1, hroot]

end MouseKeeper.Desktop.RoomWork
