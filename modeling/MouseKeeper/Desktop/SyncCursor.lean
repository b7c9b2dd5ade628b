import MouseKeeper.Desktop.EventReplay
import MouseKeeper.Machine

/-!
The sync cursor of a desktop.

A cursor is kept in memory and in the database. To advance it, a call looks at the memory,
writes the row unless the row is further, and then changes the memory, and other calls may come
in between. Replays read the cursor, fetch a page of the events after it, apply them and advance
the cursor to the last one. The memory follows the rows as long as no call writes behind the
row, and the memory is changed in the order of the rows.
-/

namespace MouseKeeper.Desktop.SyncCursor

open MouseKeeper.Machine MouseKeeper.WriteBehind
open EventReplay (I64_MAX applyRoomRemovedEvent)

abbrev Cursors := Std.ExtTreeMap String ℕ

def cursor (m : Cursors) (deviceId : String) : ℕ := m[deviceId]?.getD 0

/-- A call before it has written its row. A replay fetches its page and applies one event
after the other. -/
inductive Call
  | fetching (background : Bool) (deviceId : String) (previous : ℕ)
  | applying (background : Bool) (deviceId : String) (previous : ℕ) (page rest : List SyncEvent)
  | advancing (deviceId : String) (sequence : ℕ)
  | clearing (deviceId : String)

structure State where
  cursors : Cursors
  rows : Cursors
  /-- What the calls that have written their row have yet to change in memory. -/
  landing : List (List (Write String ℕ))
  calls : List Call
  /-- The events that the server has for a device, which become visible in order. -/
  log : String → List SyncEvent
  /-- The sequences of the events that have been applied for a device. -/
  applied : String → List ℕ
  roots : Roots
  rules : String → RulesFile

def start : State :=
  ⟨∅, ∅, [], [], fun _ => [], fun _ => [], ∅, fun _ => .absent⟩

inductive Action
  | publish (deviceId : String) (e : SyncEvent)
  | replay (background : Bool) (deviceId : String)
  | fetch (call : ℕ) (answered : Bool)
  | apply (call : ℕ) (w : Surroundings)
  | finish (call : ℕ)
  | advance (deviceId : String) (sequence : ℕ)
  | clearDevice (deviceId : String)
  | writeRow (call : ℕ) (fails : Bool)
  | land (call : ℕ)
  | restart

namespace State

def here (s : State) (deviceId : String) : Local :=
  ⟨s.roots, s.rules, cursor s.cursors deviceId⟩

def keep (s : State) (l : Local) : State := { s with roots := l.roots, rules := l.rules }

def setCall (s : State) (i : ℕ) (c : Call) : State := { s with calls := s.calls.set i c }

def endCall (s : State) (i : ℕ) : State := { s with calls := s.calls.eraseIdx i }

def mark (s : State) (deviceId : String) (sequence : ℕ) : State :=
  { s with applied := Function.update s.applied deviceId (sequence :: s.applied deviceId) }

/-- What `advance` checks before it writes the row. -/
def mayAdvance (s : State) (deviceId : String) (sequence : ℕ) : Bool :=
  cursor s.cursors deviceId ≤ sequence && sequence ≤ I64_MAX

/-- The page that the server answers. -/
def page (s : State) (deviceId : String) (previous : ℕ) : List SyncEvent :=
  ((s.log deviceId).filter fun e => previous < e.sequence).take 100

/-- The next event of a page. An event that revokes the device ends the replay and clears the
cursor. -/
def applyNext (s : State) (i : ℕ) (w : Surroundings) (background : Bool) (deviceId : String)
    (previous : ℕ) (page : List SyncEvent) (e : SyncEvent) (rest : List SyncEvent) : State :=
  match applyRoomRemovedEvent w e (s.here deviceId) with
  | (.error _, l) => (s.keep l).endCall i
  | (.ok _, l) =>
    match applyRuleCreatedEvent w e l with
    | (.error _, l) => (s.keep l).endCall i
    | (.ok _, l) =>
      if e.revokes deviceId then
        (({ s with
          roots := (ManagedRootStore.detachAllRooms l.roots w.now).2
          rules := l.rules }).mark deviceId e.sequence).setCall i (.clearing deviceId)
      else
        ((s.keep l).mark deviceId e.sequence).setCall i
          (.applying background deviceId previous page rest)

/-- The row of an advance, which stays if it is further. -/
def advanceRow (rows : Cursors) (deviceId : String) (sequence : ℕ) : Cursors :=
  match rows[deviceId]? with
  | some last => if last ≤ sequence then rows.insert deviceId sequence else rows
  | none => rows.insert deviceId sequence

/-- A row has been written, and the memory is to follow. -/
def written (s : State) (i : ℕ) (rows : Cursors) (w : Write String ℕ) : State :=
  { s with rows, landing := s.landing ++ [[w]], calls := s.calls.eraseIdx i }

end State

open State

def step (s : State) : Action → Option State
  | .publish deviceId e =>
    if 0 < e.sequence ∧ ∀ x ∈ s.log deviceId, x.sequence < e.sequence then
      some { s with log := Function.update s.log deviceId (s.log deviceId ++ [e]) }
    else none
  | .replay background deviceId =>
    some { s with calls := s.calls ++
      [.fetching background deviceId (cursor s.cursors deviceId)] }
  | .fetch call answered =>
    match s.calls[call]? with
    | some (.fetching background deviceId previous) =>
      let page := s.page deviceId previous
      match answered, validateSyncEvents previous page with
      | true, .ok _ => some (s.setCall call (.applying background deviceId previous page page))
      | _, _ => some (s.endCall call)
    | _ => none
  | .apply call w =>
    match s.calls[call]? with
    | some (.applying background deviceId previous page (e :: rest)) =>
      some (s.applyNext call w background deviceId previous page e rest)
    | _ => none
  | .finish call =>
    match s.calls[call]? with
    | some (.applying background deviceId previous page []) =>
      match page.getLast? with
      | some last =>
        if (background || previous < last.sequence) && s.mayAdvance deviceId last.sequence then
          some (s.setCall call (.advancing deviceId last.sequence))
        else some (s.endCall call)
      | none => some (s.endCall call)
    | _ => none
  | .advance deviceId sequence =>
    if s.mayAdvance deviceId sequence then
      some { s with calls := s.calls ++ [.advancing deviceId sequence] }
    else some s
  | .clearDevice deviceId => some { s with calls := s.calls ++ [.clearing deviceId] }
  | .writeRow call fails =>
    match s.calls[call]? with
    | some (.advancing deviceId sequence) =>
      if fails then some (s.endCall call)
      else some (s.written call (advanceRow s.rows deviceId sequence) ⟨deviceId, some sequence⟩)
    | some (.clearing deviceId) =>
      if fails then some (s.endCall call)
      else some (s.written call (s.rows.erase deviceId) ⟨deviceId, none⟩)
    | _ => none
  | .land call =>
    (next s.landing call).map fun (w, landing) => { s with cursors := w.apply s.cursors, landing }
  | .restart => some { s with cursors := s.rows, landing := [], calls := [] }

/-! ### The claim and its condition -/

/-- Every event up to a sequence has been applied, and the server has got that far. -/
def Covered (s : State) (deviceId : String) (sequence : ℕ) : Prop :=
  (sequence = 0 ∨ ∃ e ∈ s.log deviceId, sequence ≤ e.sequence) ∧
    ∀ e ∈ s.log deviceId, e.sequence ≤ sequence → e.sequence ∈ s.applied deviceId

/-- No call writes behind the row, the memory is changed in the order of the rows, and a call
of its own advances the cursor over nothing that has not been applied. -/
def InOrder (s : State) : Action → Prop
  | .advance deviceId sequence => Covered s deviceId sequence
  | .writeRow call fails => ∀ deviceId sequence,
      s.calls[call]? = some (.advancing deviceId sequence) → fails = false →
        cursor s.rows deviceId ≤ sequence
  | .land call => ∀ w landing, next s.landing call = some (w, landing) →
      InTurn s.landing call w.key
  | _ => True

/-- A step of `clear_device`, or a restart that comes between its two changes. -/
def Clears (s : State) (deviceId : String) : Action → Prop
  | .writeRow call _ => s.calls[call]? = some (.clearing deviceId)
  | .land call => (next s.landing call).map Prod.fst = some ⟨deviceId, none⟩
  | .restart => ⟨deviceId, none⟩ ∈ s.landing.flatten
  | _ => False

/-- What the desktop relies on in a state: the memory is what the rows say when no call is in
progress, and no event up to a cursor is missing. -/
structure Sound (s : State) : Prop where
  agrees : s.calls = [] → s.landing.flatten = [] → s.cursors = s.rows
  applied : ∀ deviceId, ∀ e ∈ s.log deviceId,
    e.sequence ≤ cursor s.cursors deviceId ∨ e.sequence ≤ cursor s.rows deviceId →
      e.sequence ∈ s.applied deviceId

/-- A cursor that goes back is being cleared. -/
structure Forward (s : State) (a : Action) (s' : State) : Prop where
  memory : ∀ deviceId, cursor s'.cursors deviceId < cursor s.cursors deviceId →
    Clears s deviceId a
  row : ∀ deviceId, cursor s'.rows deviceId < cursor s.rows deviceId → Clears s deviceId a

/-- The cursor holds in a state, and over the next step that meets the condition. -/
structure Holds (ok : State → Action → Prop) (s : State) : Prop where
  sound : Sound s
  forward : ∀ {a s'}, ok s a → step s a = some s' → Forward s a s'

/-! ### What the steps keep -/

/-- A change that is no step back, or clears the entry. -/
def Onward (old new : Option ℕ) : Prop := new = none ∨ old.getD 0 ≤ new.getD 0

def CallCovered (s : State) : Call → Prop
  | .fetching _ deviceId previous => Covered s deviceId previous
  | .applying _ deviceId _ page rest => ∀ last, page.getLast? = some last →
      (∃ e ∈ s.log deviceId, last.sequence ≤ e.sequence) ∧ ∀ e ∈ s.log deviceId,
        e.sequence ≤ last.sequence → e.sequence ∈ s.applied deviceId ∨ e ∈ rest
  | .advancing deviceId sequence => Covered s deviceId sequence
  | .clearing _ => True

/-- The memory becomes the rows and moves onward on the way, and every sequence that is or
will be a cursor has been covered. -/
structure Kept (s : State) : Prop where
  follows : flush s.cursors s.landing.flatten = s.rows
  onward : Each Onward s.cursors s.landing.flatten
  memory : ∀ deviceId, Covered s deviceId (cursor s.cursors deviceId)
  row : ∀ deviceId, Covered s deviceId (cursor s.rows deviceId)
  landing : ∀ w ∈ s.landing.flatten, ∀ sequence, w.value = some sequence →
    Covered s w.key sequence
  calls : ∀ c ∈ s.calls, CallCovered s c
  sorted : ∀ deviceId, (s.log deviceId).Pairwise fun a b => a.sequence < b.sequence
  positive : ∀ deviceId, ∀ e ∈ s.log deviceId, 0 < e.sequence

/-- The server gets further and more is applied. -/
structure Grows (s s' : State) : Prop where
  log : ∀ deviceId, s'.log deviceId = s.log deviceId ∨ ∃ e, 0 < e.sequence ∧
    (∀ x ∈ s.log deviceId, x.sequence < e.sequence) ∧ s'.log deviceId = s.log deviceId ++ [e]
  applied : ∀ deviceId, s.applied deviceId ⊆ s'.applied deviceId

variable {s s' : State} {a : Action} {deviceId : String} {sequence : ℕ}

lemma Grows.of_eq (hl : s'.log = s.log) (ha : s'.applied = s.applied) : Grows s s' :=
  ⟨fun _ => .inl (by rw [hl]), fun _ => by rw [ha]; exact List.Subset.refl _⟩

lemma Grows.mem (h : Grows s s') {e : SyncEvent} (he : e ∈ s.log deviceId) :
    e ∈ s'.log deviceId := by
  obtain hl | ⟨x, -, -, hl⟩ := h.log deviceId
  · rwa [hl]
  · rw [hl]
    exact List.mem_append_left _ he

/-- An event that comes up lies above every sequence that the server has got to. -/
lemma Grows.old (h : Grows s s') (hs : sequence = 0 ∨ ∃ e ∈ s.log deviceId, sequence ≤ e.sequence)
    {e : SyncEvent} (he : e ∈ s'.log deviceId) (hle : e.sequence ≤ sequence) :
    e ∈ s.log deviceId := by
  obtain hl | ⟨x, hpos, habove, hl⟩ := h.log deviceId
  · rwa [hl] at he
  · rw [hl] at he
    rcases List.mem_append.mp he with he | he
    · exact he
    · obtain rfl := List.mem_singleton.mp he
      obtain rfl | ⟨y, hy, hley⟩ := hs
      · omega
      · have := habove y hy
        omega

lemma Grows.covered (h : Grows s s') (hc : Covered s deviceId sequence) :
    Covered s' deviceId sequence := by
  refine ⟨hc.1.imp_right fun ⟨e, he, hle⟩ => ⟨e, h.mem he, hle⟩, fun e he hle => ?_⟩
  exact h.applied _ (hc.2 e (h.old hc.1 he hle) hle)

lemma Grows.callCovered (h : Grows s s') {c : Call} (hc : CallCovered s c) : CallCovered s' c := by
  cases c with
  | fetching background deviceId previous => exact h.covered hc
  | applying background deviceId previous page rest =>
    intro last hl
    obtain ⟨⟨x, hx, hle⟩, hall⟩ := hc last hl
    refine ⟨⟨x, h.mem hx, hle⟩, fun e he hle' => ?_⟩
    exact (hall e (h.old (.inr ⟨x, hx, hle⟩) he hle') hle').imp_left fun hm => h.applied _ hm
  | advancing deviceId sequence => exact h.covered hc
  | clearing deviceId => trivial

/-- A step that leaves the cursors alone keeps them. -/
lemma Kept.of_calls (h : Kept s) (hg : Grows s s') (hcursors : s'.cursors = s.cursors)
    (hrows : s'.rows = s.rows) (hlanding : s'.landing = s.landing)
    (hcalls : ∀ c ∈ s'.calls, c ∈ s.calls ∨ CallCovered s' c) : Kept s' where
  follows := by rw [hcursors, hlanding, hrows, h.follows]
  onward := by rw [hcursors, hlanding]; exact h.onward
  memory := fun d => by rw [hcursors]; exact hg.covered (h.memory d)
  row := fun d => by rw [hrows]; exact hg.covered (h.row d)
  landing := fun w hw v hv => by
    rw [hlanding] at hw
    exact hg.covered (h.landing w hw v hv)
  calls := fun c hc => (hcalls c hc).elim (fun hc => hg.callCovered (h.calls c hc)) id
  sorted := fun d => by
    obtain hl | ⟨e, -, habove, hl⟩ := hg.log d
    · rw [hl]
      exact h.sorted d
    · rw [hl, List.pairwise_append]
      exact ⟨h.sorted d, List.pairwise_singleton .., fun x hx y hy =>
        List.mem_singleton.mp hy ▸ habove x hx⟩
  positive := fun d e he => by
    obtain hl | ⟨x, hpos, -, hl⟩ := hg.log d
    · exact h.positive d e (hl ▸ he)
    · rw [hl] at he
      rcases List.mem_append.mp he with he | he
      · exact h.positive d e he
      · exact List.mem_singleton.mp he ▸ hpos

lemma mem_set {c c' : Call} {i : ℕ} {l : List Call} (h : c ∈ l.set i c') : c ∈ l ∨ c = c' :=
  List.mem_or_eq_of_mem_set h

lemma Kept.setCall (h : Kept s) {c : Call} {i : ℕ} (hc : CallCovered s c) : Kept (s.setCall i c) :=
  h.of_calls (.of_eq rfl rfl) rfl rfl rfl fun c' hc' =>
    (mem_set hc').imp_right fun he => by rw [he]; exact hc

lemma Kept.endCall (h : Kept s) {i : ℕ} : Kept (s.endCall i) :=
  h.of_calls (.of_eq rfl rfl) rfl rfl rfl fun _ hc => .inl (List.mem_of_mem_eraseIdx hc)

lemma Kept.keep (h : Kept s) {l : Local} : Kept (s.keep l) :=
  h.of_calls (.of_eq rfl rfl) rfl rfl rfl fun _ hc => .inl hc

lemma kept_start : Kept start := by
  refine ⟨rfl, trivial, ?_, ?_, ?_, ?_, ?_, ?_⟩ <;> simp [start, Covered, cursor]

/-- Everything that has been published up to the last event of a page is covered, or in it. -/
lemma page_covered (h : Kept s) {previous : ℕ} (hc : Covered s deviceId previous)
    {background : Bool} : CallCovered s
      (.applying background deviceId previous (s.page deviceId previous)
        (s.page deviceId previous)) := by
  intro last hl
  have hmem : last ∈ (s.log deviceId).filter fun e => previous < e.sequence :=
    List.mem_of_mem_take (List.mem_of_getLast? hl)
  refine ⟨⟨last, (List.mem_filter.mp hmem).1, le_rfl⟩, fun e he hle => ?_⟩
  by_cases hp : e.sequence ≤ previous
  · exact .inl (hc.2 e he hp)
  · right
    have hsorted := (h.sorted deviceId).filter fun e => decide (previous < e.sequence)
    have hin : e ∈ (s.log deviceId).filter fun e => previous < e.sequence :=
      List.mem_filter.mpr ⟨he, by simpa using hp⟩
    -- What lies in the rest of the log lies above the last event of the page.
    rw [← List.take_append_drop 100 (List.filter _ _)] at hin hsorted
    rcases List.mem_append.mp hin with hin | hin
    · exact hin
    · have := (List.pairwise_append.mp hsorted).2.2 last (List.mem_of_getLast? hl) e hin
      omega

lemma mem_of_get {c : Call} {i : ℕ} (h : s.calls[i]? = some c) : c ∈ s.calls :=
  List.mem_of_getElem? h

lemma grows_mark {s : State} : Grows s (s.mark deviceId sequence) where
  log := fun _ => .inl rfl
  applied := fun d x hx => by
    by_cases hd : d = deviceId
    · subst hd
      simp [State.mark, hx]
    · simpa [State.mark, hd] using hx

lemma Kept.mark (h : Kept s) : Kept (s.mark deviceId sequence) :=
  h.of_calls grows_mark rfl rfl rfl fun _ hc => .inl hc

/-- An event that has been applied is no longer missing from its page. -/
lemma callCovered_mark {background : Bool} {previous : ℕ} {page rest : List SyncEvent}
    {e : SyncEvent} (hc : CallCovered s (.applying background deviceId previous page (e :: rest))) :
    CallCovered (s.mark deviceId e.sequence) (.applying background deviceId previous page rest) := by
  intro last hl
  obtain ⟨hfar, hall⟩ := hc last hl
  refine ⟨hfar, fun x hx hle => ?_⟩
  rcases hall x hx hle with hm | hm
  · exact .inl (grows_mark.applied _ hm)
  · rcases List.mem_cons.mp hm with rfl | hm
    · exact .inl (by simp [State.mark])
    · exact .inr hm

lemma apply_kept (h : Kept s) {i : ℕ} {w : Surroundings} {background : Bool} {previous : ℕ}
    {page rest : List SyncEvent} {e : SyncEvent}
    (hi : s.calls[i]? = some (.applying background deviceId previous page (e :: rest))) :
    Kept (s.applyNext i w background deviceId previous page e rest) := by
  have hc := h.calls _ (mem_of_get hi)
  unfold State.applyNext
  split
  · exact h.keep.endCall
  · split
    · exact h.keep.endCall
    · rename_i l _
      have hkeep : Kept (s.keep l) := h.keep
      split_ifs
      · have hroots : Kept { s with
            roots := (ManagedRootStore.detachAllRooms l.roots w.now).2, rules := l.rules } :=
          h.of_calls (.of_eq rfl rfl) rfl rfl rfl fun _ hc => .inl hc
        exact hroots.mark.setCall trivial
      · exact hkeep.mark.setCall (callCovered_mark (s := s.keep l) hc)

lemma cursor_apply {m : Cursors} {w : Write String ℕ} : cursor (w.apply m) deviceId =
    if w.key = deviceId then w.value.getD 0 else cursor m deviceId := by
  unfold cursor
  rw [get_apply]
  split_ifs <;> rfl

lemma advanceRow_eq {m : Cursors} (h : cursor m deviceId ≤ sequence) :
    advanceRow m deviceId sequence = Write.apply m ⟨deviceId, some sequence⟩ := by
  unfold advanceRow
  cases hm : m[deviceId]? with
  | none => rfl
  | some last =>
    have : last ≤ sequence := by simpa [cursor, hm] using h
    simp [this, Write.apply]

lemma Kept.covered_value (h : Kept s) {w : Write String ℕ}
    (hc : ∀ sequence, w.value = some sequence → Covered s w.key sequence) :
    Covered s w.key (w.value.getD 0) := by
  cases hv : w.value with
  | none =>
    refine ⟨.inl rfl, fun e he hle => ?_⟩
    have := h.positive _ e he
    simp only [Option.getD_none] at hle
    omega
  | some v => exact hc v hv

/-- A row that moves onward, and the memory that is to follow it. -/
lemma written_kept (h : Kept s) {i : ℕ} {w : Write String ℕ}
    (hw : Onward s.rows[w.key]? w.value)
    (hc : ∀ sequence, w.value = some sequence → Covered s w.key sequence) :
    Kept (s.written i (w.apply s.rows) w) := by
  have hg : Grows s (s.written i (w.apply s.rows) w) := .of_eq rfl rfl
  have hflat : (s.written i (w.apply s.rows) w).landing.flatten = s.landing.flatten ++ [w] := by
    simp [State.written]
  refine ⟨?_, ?_, fun d => hg.covered (h.memory d), fun d => ?_, fun w' hw' v hv => ?_,
    fun c hc => hg.callCovered (h.calls c (List.mem_of_mem_eraseIdx hc)), h.sorted, h.positive⟩
  · rw [hflat, flush_append]
    exact congrArg w.apply h.follows
  · rw [hflat, each_append]
    refine ⟨h.onward, ?_, trivial⟩
    exact h.follows ▸ hw
  · refine hg.covered ?_
    show Covered s d (cursor (w.apply s.rows) d)
    rw [cursor_apply]
    split_ifs with hd
    · exact hd ▸ h.covered_value hc
    · exact h.row d
  · rw [hflat] at hw'
    rcases List.mem_append.mp hw' with hw' | hw'
    · exact hg.covered (h.landing w' hw' v hv)
    · obtain rfl := List.mem_singleton.mp hw'
      exact hg.covered (hc v hv)

lemma land_kept (h : Kept s) {i : ℕ} {w : Write String ℕ} {landing : List (List (Write String ℕ))}
    (hn : next s.landing i = some (w, landing)) (ht : InTurn s.landing i w.key) :
    Kept { s with cursors := w.apply s.cursors, landing } := by
  obtain ⟨rest, hbefore, hafter⟩ := next_cut hn
  have hw : w ∈ s.landing.flatten := by simp [hbefore]
  have hsub : landing.flatten ⊆ s.landing.flatten := fun x hx => by
    rw [hafter] at hx
    rw [hbefore]
    rcases List.mem_append.mp hx with hx | hx
    · exact List.mem_append_left _ hx
    · exact List.mem_append_right _ (List.mem_cons_of_mem _ hx)
  have hg : Grows s { s with cursors := w.apply s.cursors, landing } := .of_eq rfl rfl
  refine ⟨(next_flush hn ht).trans h.follows, (next_each hn ht h.onward).2, fun d => ?_,
    fun d => hg.covered (h.row d), fun w' hw' v hv => hg.covered (h.landing w' (hsub hw') v hv),
    fun c hc => hg.callCovered (h.calls c hc), h.sorted, h.positive⟩
  refine hg.covered ?_
  show Covered s d (cursor (w.apply s.cursors) d)
  rw [cursor_apply]
  split_ifs with hd
  · exact hd ▸ h.covered_value (h.landing w hw)
  · exact h.memory d

lemma restart_kept (h : Kept s) : Kept { s with cursors := s.rows, landing := [], calls := [] } where
  follows := rfl
  onward := trivial
  memory := h.row
  row := h.row
  landing := by simp
  calls := by simp
  sorted := h.sorted
  positive := h.positive

lemma step_kept (h : Kept s) (hok : InOrder s a) (hs : step s a = some s') : Kept s' := by
  cases a with
  | publish deviceId e =>
    rw [step] at hs
    split_ifs at hs with he
    cases hs
    refine h.of_calls ⟨fun d => ?_, fun _ => List.Subset.refl _⟩ rfl rfl rfl fun _ hc => .inl hc
    by_cases hd : d = deviceId
    · subst hd
      exact .inr ⟨e, he.1, he.2, Function.update_self ..⟩
    · exact .inl (Function.update_of_ne hd ..)
  | replay background deviceId =>
    cases hs
    refine h.of_calls (.of_eq rfl rfl) rfl rfl rfl fun c hc => (List.mem_append.mp hc).imp_right ?_
    intro hc
    rw [List.mem_singleton.mp hc]
    exact h.memory deviceId
  | fetch call answered =>
    rw [step] at hs
    split at hs
    · rename_i hi
      dsimp only at hs
      split at hs <;> cases hs
      · exact h.setCall (page_covered h (h.calls _ (mem_of_get hi)))
      · exact h.endCall
    · cases hs
  | apply call w =>
    rw [step] at hs
    split at hs <;> cases hs
    rename_i hi
    exact apply_kept h hi
  | finish call =>
    rw [step] at hs
    split at hs
    · rename_i hi
      have hc := h.calls _ (mem_of_get hi)
      split at hs
      · rename_i last hl
        split_ifs at hs <;> cases hs
        · obtain ⟨⟨x, hx, hle⟩, hall⟩ := hc last hl
          exact h.setCall ⟨.inr ⟨x, hx, hle⟩, fun e he hle' =>
            (hall e he hle').resolve_right (List.not_mem_nil)⟩
        · exact h.endCall
      · cases hs
        exact h.endCall
    · cases hs
  | advance deviceId sequence =>
    rw [step] at hs
    split_ifs at hs <;> cases hs
    · refine h.of_calls (.of_eq rfl rfl) rfl rfl rfl fun c hc =>
        (List.mem_append.mp hc).imp_right ?_
      intro hc
      rw [List.mem_singleton.mp hc]
      exact hok
    · exact h
  | clearDevice deviceId =>
    cases hs
    refine h.of_calls (.of_eq rfl rfl) rfl rfl rfl fun c hc => (List.mem_append.mp hc).imp_right ?_
    intro hc
    rw [List.mem_singleton.mp hc]
    trivial
  | writeRow call fails =>
    rw [step] at hs
    split at hs
    · rename_i d v hi
      split_ifs at hs with hf <;> cases hs
      · exact h.endCall
      · have hle := hok d v hi (by simpa using hf)
        rw [advanceRow_eq hle]
        refine written_kept h (.inr hle) fun v' hv' => ?_
        cases hv'
        exact h.calls _ (mem_of_get hi)
    · rename_i d hi
      split_ifs at hs <;> cases hs
      · exact h.endCall
      · exact written_kept (w := ⟨d, none⟩) h (.inl rfl) fun _ hv => by cases hv
    · cases hs
  | land call =>
    obtain ⟨⟨w, landing⟩, hn, rfl⟩ := Option.map_eq_some_iff.mp hs
    exact land_kept h hn (hok w landing hn)
  | restart =>
    cases hs
    exact restart_kept h

/-- Writes that clear nothing for a device leave its cursor no smaller. -/
lemma cursor_flush {m : Cursors} {ws : List (Write String ℕ)} (h : Each Onward m ws)
    (hn : ⟨deviceId, none⟩ ∉ ws) : cursor m deviceId ≤ cursor (flush m ws) deviceId := by
  induction ws generalizing m with
  | nil => exact le_rfl
  | cons w ws ih =>
    obtain ⟨hw, hws⟩ := h
    refine le_trans ?_ (ih hws fun hm => hn (List.mem_cons_of_mem _ hm))
    rw [cursor_apply]
    split_ifs with hd
    · obtain ⟨key, value⟩ := w
      obtain rfl : key = deviceId := hd
      obtain hv | hle := hw
      · exact absurd (by rw [show value = none from hv]; exact List.mem_cons_self) hn
      · exact hle
    · exact le_rfl

lemma Forward.of_eq (hc : s'.cursors = s.cursors) (hr : s'.rows = s.rows) : Forward s a s' :=
  ⟨fun d h => by rw [hc] at h; omega, fun d h => by rw [hr] at h; omega⟩

lemma applyNext_cursors {i : ℕ} {w : Surroundings} {background : Bool} {previous : ℕ}
    {page rest : List SyncEvent} {e : SyncEvent} :
    (s.applyNext i w background deviceId previous page e rest).cursors = s.cursors ∧
      (s.applyNext i w background deviceId previous page e rest).rows = s.rows := by
  unfold State.applyNext
  split
  · exact ⟨rfl, rfl⟩
  · split
    · exact ⟨rfl, rfl⟩
    · split_ifs <;> exact ⟨rfl, rfl⟩

lemma step_forward (h : Kept s) (hok : InOrder s a) (hs : step s a = some s') :
    Forward s a s' := by
  cases a with
  | publish deviceId e =>
    rw [step] at hs
    split_ifs at hs
    cases hs
    exact .of_eq rfl rfl
  | replay background deviceId =>
    cases hs
    exact .of_eq rfl rfl
  | fetch call answered =>
    rw [step] at hs
    split at hs
    · dsimp only at hs
      split at hs <;> cases hs <;> exact .of_eq rfl rfl
    · cases hs
  | apply call w =>
    rw [step] at hs
    split at hs <;> cases hs
    exact .of_eq applyNext_cursors.1 applyNext_cursors.2
  | finish call =>
    rw [step] at hs
    split at hs
    · split at hs
      · split_ifs at hs <;> cases hs <;> exact .of_eq rfl rfl
      · cases hs
        exact .of_eq rfl rfl
    · cases hs
  | advance deviceId sequence =>
    rw [step] at hs
    split_ifs at hs <;> cases hs <;> exact .of_eq rfl rfl
  | clearDevice deviceId =>
    cases hs
    exact .of_eq rfl rfl
  | writeRow call fails =>
    rw [step] at hs
    split at hs
    · rename_i d v hi
      split_ifs at hs with hf <;> cases hs
      · exact .of_eq rfl rfl
      · have hle := hok d v hi (by simpa using hf)
        refine ⟨fun _ hlt => absurd hlt (lt_irrefl _), fun d' hlt => ?_⟩
        simp only [State.written, advanceRow_eq hle, cursor_apply] at hlt
        split_ifs at hlt with hd
        · subst hd
          simp only [Option.getD_some] at hlt
          omega
        · omega
    · rename_i d hi
      split_ifs at hs <;> cases hs
      · exact .of_eq rfl rfl
      · refine ⟨fun _ hlt => absurd hlt (lt_irrefl _), fun d' hlt => ?_⟩
        have hsame : s.rows.erase d = Write.apply s.rows ⟨d, none⟩ := rfl
        simp only [State.written, hsame, cursor_apply] at hlt
        split_ifs at hlt with hd
        · exact hd ▸ hi
        · omega
    · cases hs
  | land call =>
    obtain ⟨⟨w, landing⟩, hn, rfl⟩ := Option.map_eq_some_iff.mp hs
    obtain ⟨hw, -⟩ := next_each hn (hok w landing hn) h.onward
    refine ⟨fun d hlt => ?_, fun _ hlt => absurd hlt (lt_irrefl _)⟩
    simp only [cursor_apply] at hlt
    split_ifs at hlt with hd
    · obtain ⟨key, value⟩ := w
      obtain rfl : key = d := hd
      obtain rfl | hle := hw
      · simp [Clears, hn]
      · exact absurd hlt (not_lt.mpr hle)
    · omega
  | restart =>
    cases hs
    refine ⟨fun d hlt => ?_, fun _ hlt => absurd hlt (lt_irrefl _)⟩
    by_contra hn
    have := cursor_flush h.onward hn
    rw [h.follows] at this
    simp only at hlt
    omega

lemma Kept.sound (h : Kept s) : Sound s where
  agrees := fun _ hl => by simpa [hl] using h.follows
  applied := fun d e he hle => hle.elim ((h.memory d).2 e he) ((h.row d).2 e he)

/-- An event that changes nothing here. -/
def chatEvent (sequence : ℕ) : SyncEvent :=
  { eventId := "event", eventType := "chat.message.created", schemaVersion := 1,
    correlationId := "request", aggregateType := "chat_message", aggregateId := "message",
    deviceId := none, roomId := none, sequence, occurredAt := "2026-01-01T00:00:00.000Z",
    payload := .obj [] }

/-- An event is published, fetched and applied, and the cursor is about to go on. -/
def replayed : List Action :=
  [.publish "device-1" (chatEvent 1), .replay true "device-1", .fetch 0 true,
    .apply 0 EventReplay.answering, .finish 0]

/-- Two replays overlap: the first has the page with one event, the second the page with two,
and the first is the last to advance. -/
def overlapping : List Action :=
  [.publish "device-1" (chatEvent 1), .replay true "device-1", .fetch 0 true,
    .publish "device-1" (chatEvent 2), .replay false "device-1", .fetch 1 true,
    .apply 0 EventReplay.answering, .apply 1 EventReplay.answering,
    .apply 1 EventReplay.answering, .finish 0, .finish 1, .writeRow 1 false, .land 0,
    .writeRow 0 false, .land 1]

lemma overlapping_cursors : (run step start overlapping).map (fun s =>
    (s.calls.length, s.landing.flatten, cursor s.cursors "device-1", cursor s.rows "device-1")) =
    some (0, [], 1, 2) := by
  decide +kernel

end MouseKeeper.Desktop.SyncCursor
