import MouseKeeper.Desktop.SyncEvents

/-!
When a page of events moves the cursor.

The events of a page are applied one after the other, and the first that fails ends the
replay with the cursor where it was, so that the same page comes again. An event can be
applied or not by what the desktop has when the page begins: what the events before it do
makes no difference to that.
-/

namespace MouseKeeper.Desktop.EventReplay

open FileEngine
open ManagedRootStore
open StaleReports (validateOpaqueValue)
open Posix (bind_eq_ok)

inductive ReplayOutcome
  | continue | deviceRevoked
  deriving DecidableEq

def I64_MAX : ℕ := 2 ^ 63 - 1

variable (w : Surroundings) (deviceId : String)

/-- `AgentSyncStore::advance`. -/
def advance (sequence : ℕ) (s : Local) : Except String Unit × Local :=
  if sequence < s.cursor then
    (.error ("sync cursor cannot move backwards: current=" ++ toString s.cursor ++ ", requested=" ++
      toString sequence), s)
  else if I64_MAX < sequence then (.error "sync cursor exceeds SQLite integer range", s)
  else
    match w.saveCursor sequence with
    | some message => (.error message, s)
    | none => (.ok (), { s with cursor := sequence })

def applyRoomRemovedEvent (e : SyncEvent) (s : Local) : Except String Unit × Local :=
  match e.removedRoom with
  | some roomId => applyLocalRoomDetached w roomId s
  | none => (.ok (), s)

def applyEvent (e : SyncEvent) (s : Local) : Except String ReplayOutcome × Local :=
  match applyRoomRemovedEvent w e s with
  | (.error message, s) => (.error message, s)
  | (.ok _, s) =>
    match applyRuleCreatedEvent w e s with
    | (.error message, s) => (.error message, s)
    | (.ok _, s) =>
      if e.revokes deviceId then
        match applyLocalDeviceRevoked w s with
        | (.error message, s) => (.error message, s)
        | (.ok _, s) => (.ok .deviceRevoked, s)
      else (.ok .continue, s)

def applyEvents : List SyncEvent → Local → Except String ReplayOutcome × Local
  | [], s => (.ok .continue, s)
  | e :: es, s =>
    match applyEvent w deviceId e s with
    | (.ok .continue, s) => applyEvents es s
    | outcome => outcome

/-- `replay_events` on the page that the server answers. -/
def replayEvents (page : List SyncEvent) (s : Local) : Except String ReplayOutcome × Local :=
  match validateSyncEvents s.cursor page with
  | .error message => (.error message, s)
  | .ok _ =>
    match applyEvents w deviceId page s with
    | (.ok .continue, s) =>
      match page.getLast? with
      | none => (.ok .continue, s)
      | some last =>
        match advance w last.sequence s with
        | (.error message, s) => (.error message, s)
        | (.ok _, s) => (.ok .continue, s)
    | outcome => outcome

/-! ### The claim and its condition -/

/-- The rule that a created event is about, as the server answers it. -/
def createdRule (e : SyncEvent) : Option AgentRule :=
  if e.eventType = "rule.created" then
    e.roomId.bind fun roomId => (w.rules roomId).find? fun r => r.ruleId = e.ruleId
  else none

/-- The page is applied: no removed room is left active, the rules of every folder that got
one can be read, and the cursor stands at the last event. -/
structure Replayed (page : List SyncEvent) (s : Local) : Prop where
  ok : (replayEvents w deviceId page s).1 = .ok .continue
  cursor : ∀ last, page.getLast? = some last →
    (replayEvents w deviceId page s).2.cursor = last.sequence
  detached : ∀ e ∈ page, ∀ roomId, e.removedRoom = some roomId →
    ∀ root, findByRoom (replayEvents w deviceId page s).2.roots roomId = some root →
      root.roomBindingStatus = .detached
  rules : ∀ e ∈ page, ∀ rule, createdRule w e = some rule → ∃ root set,
    findByRoom (replayEvents w deviceId page s).2.roots rule.roomId = some root ∧
      (replayEvents w deviceId page s).2.rules root.root = .parsed set ∧ set.validate = .ok ()

/-- A `rules.json` that is not there, or holds a rule set that passes the check. -/
def Readable (file : RulesFile) : Prop :=
  file = .absent ∨ ∃ set, file = .parsed set ∧ set.validate = .ok ()

/-- A rule that is enabled has a definition that the engine takes. -/
def Accepted (rule : AgentRule) : Prop :=
  rule.enabled = true → ∃ set,
    RuleSet.fromContractDefinition rule.ruleId rule.priority rule.definition = .ok set

/-- A created rule can be applied: its room is bound to a folder whose rules can be read and
written, and a rule that is enabled is one that the engine takes. -/
structure RuleApplies (s : Local) (rule : AgentRule) (root : ManagedRoot) : Prop where
  readable : Readable (s.rules root.root)
  accepted : Accepted rule
  written : w.createDir root.root = none ∧ w.writeRules root.root = none

/-- What the event says of a rule can be answered, and the rule can be applied. -/
def CreatedApplies (w : Surroundings) (s : Local) (e : SyncEvent) : Prop :=
  (e.eventType = "rule.created" → ∀ roomId, e.roomId = some roomId →
    validateOpaqueValue roomId 200 = true ∧ ∀ r ∈ w.rules roomId, validateRule r = .ok ()) ∧
  ∀ rule, createdRule w e = some rule →
    ∃ root, findByRoom s.roots rule.roomId = some root ∧ RuleApplies w s rule root

/-- The event can be applied by what the desktop has. -/
structure Applicable (s : Local) (e : SyncEvent) : Prop where
  removed : ∀ roomId, e.removedRoom = some roomId → ∀ root, findByRoom s.roots roomId = some root →
    root.roomBindingStatus ≠ .detached → w.persist root.rootId = none
  created : CreatedApplies w s e
  stays : e.revokes deviceId = false

/-! ### The rules of a folder -/

section Rules

variable {path ruleId : String} {file : RulesFile} {rule : AgentRule} {set : RuleSet}

lemma default_valid : defaultRuleSet.validate = .ok () := by decide +kernel

lemma load_ok_iff : loadRuleSetForRoot path file = .ok set ↔
    file = .absent ∧ set = defaultRuleSet ∨ file = .parsed set ∧ set.validate = .ok () := by
  cases file with
  | absent => simp [loadRuleSetForRoot, eq_comm]
  | unreadable | malformed => simp [loadRuleSetForRoot]
  | parsed set' =>
    simp only [loadRuleSetForRoot, RulesFile.parsed.injEq, reduceCtorEq, false_and, false_or]
    cases hv : set'.validate with
    | error e =>
      simp only [Except.mapError, bind, Except.bind, reduceCtorEq, false_iff]
      rintro ⟨rfl, h⟩
      rw [hv] at h
      cases h
    | ok =>
      simp only [Except.mapError, bind, Except.bind, pure, Except.pure, Except.ok.injEq]
      exact ⟨fun h => ⟨h, h ▸ hv⟩, fun h => h.1⟩

lemma load_valid (h : loadRuleSetForRoot path file = .ok set) : set.validate = .ok () := by
  obtain ⟨-, rfl⟩ | ⟨-, h⟩ := load_ok_iff.mp h
  · exact default_valid
  · exact h

lemma readable_iff : Readable file ↔ ∃ set, loadRuleSetForRoot path file = .ok set := by
  simp only [load_ok_iff, Readable]
  constructor
  · rintro (rfl | ⟨set, rfl, h⟩)
    · exact ⟨_, .inl ⟨rfl, rfl⟩⟩
    · exact ⟨set, .inr ⟨rfl, h⟩⟩
  · rintro ⟨set, ⟨rfl, -⟩ | ⟨rfl, h⟩⟩
    · exact .inl rfl
    · exact .inr ⟨set, rfl, h⟩

lemma madeOf_any {index : String} {r : Rule} (h : r.id = ruleId ++ "-any-" ++ index) :
    madeOf ruleId r = true := by
  simp [madeOf, h, List.isPrefixOf_iff_prefix]

lemma anyRules_made {priority : ℤ} {action : Action} {l : List ContractCondition} {index : ℕ}
    {rules : List Rule} (h : anyRules ruleId priority action index l = .ok rules) :
    ∀ r ∈ rules, madeOf ruleId r = true := by
  induction l generalizing index rules with
  | nil =>
    cases h
    simp
  | cons x l ih =>
    simp only [anyRules, bind_eq_ok] at h
    obtain ⟨c, -, rest, hrest, h⟩ := h
    cases h
    exact List.forall_mem_cons.mpr ⟨madeOf_any rfl, ih hrest⟩

/-- The rules that are made of a definition carry its id and pass the check. -/
lemma fromContract_made {priority : ℤ} {definition : Contracts.Json}
    (h : RuleSet.fromContractDefinition ruleId priority definition = .ok set) :
    (∀ r ∈ set.rules, madeOf ruleId r = true) ∧ set.validate = .ok () := by
  unfold RuleSet.fromContractDefinition at h
  split at h
  · cases h
  · rename_i d hd
    cases hinto : d.intoRuleSet ruleId priority with
    | error e => simp [hinto, Except.mapError] at h
    | ok set' =>
      simp only [hinto, Except.mapError, Except.ok.injEq] at h
      subst h
      cases hm : d.matchMode with
      | all =>
        simp only [ContractRuleDefinition.intoRuleSet, hm, bind_eq_ok] at hinto
        obtain ⟨c, -, rules, hrules, _, hv, h⟩ := hinto
        cases hrules
        cases h
        exact ⟨by simp [madeOf], hv⟩
      | any =>
        simp only [ContractRuleDefinition.intoRuleSet, hm, bind_eq_ok] at hinto
        obtain ⟨rules, hrules, _, hv, h⟩ := hinto
        cases h
        exact ⟨anyRules_made hrules, hv⟩

/-- The rules that stay and the rules that come have no id in common. -/
lemma merged_valid {kept incoming : List Rule} (hset : set.validate = .ok ())
    (hkept : kept = set.rules.filter fun existing => !madeOf ruleId existing)
    (hmade : ∀ r ∈ incoming, madeOf ruleId r = true)
    (hvalid : (∀ r ∈ incoming, r.validate = .ok ()) ∧ (incoming.map Rule.id).Nodup) :
    RuleSet.validate ⟨set.version, kept ++ incoming⟩ = .ok () := by
  obtain ⟨hv, hall, hnodup⟩ := RuleSet.validate_iff.mp hset
  have hsub : kept.Sublist set.rules := hkept ▸ List.filter_sublist
  refine RuleSet.validate_iff.mpr ⟨hv, fun r hr => ?_, ?_⟩
  · rcases List.mem_append.mp hr with hr | hr
    · exact hall r (hsub.subset hr)
    · exact hvalid.1 r hr
  · rw [List.map_append, List.nodup_append]
    refine ⟨hnodup.sublist (hsub.map _), hvalid.2, ?_⟩
    rintro a ha b hb rfl
    obtain ⟨r, hr, rfl⟩ := List.mem_map.mp ha
    obtain ⟨r', hr', he⟩ := List.mem_map.mp hb
    have hm : madeOf ruleId r = true := by
      have := hmade r' hr'
      rwa [madeOf, he] at this
    have hn := (List.mem_filter.mp (hkept ▸ hr)).2
    rw [hm] at hn
    cases hn

lemma incoming_ok (h : Accepted rule) : ∃ rules, incomingRules rule = .ok rules := by
  unfold incomingRules
  split_ifs with he
  · obtain ⟨set, hset⟩ := h he
    exact ⟨set.rules, by rw [hset]⟩
  · exact ⟨[], rfl⟩

lemma incoming_made {rules : List Rule} (h : incomingRules rule = .ok rules) :
    Accepted rule ∧ (∀ r ∈ rules, madeOf rule.ruleId r = true) ∧
      (∀ r ∈ rules, r.validate = .ok ()) ∧ (rules.map Rule.id).Nodup := by
  unfold incomingRules at h
  split_ifs at h with he
  · split at h
    · rename_i set hset
      cases h
      obtain ⟨hmade, hok⟩ := fromContract_made hset
      exact ⟨fun _ => ⟨set, hset⟩, hmade, (RuleSet.validate_iff.mp hok).2⟩
    · cases h
  · cases h
    exact ⟨fun h' => absurd h' he, by simp, by simp, by simp⟩

lemma mergedRules_ok (h : mergedRules path file rule = .ok set) :
    Readable file ∧ Accepted rule ∧ set.validate = .ok () := by
  simp only [mergedRules, bind_eq_ok, mapError_eq_ok] at h
  obtain ⟨base, hbase, incoming, hin, _, hv, h⟩ := h
  cases h
  exact ⟨readable_iff.mpr ⟨base, hbase⟩, (incoming_made hin).1, hv⟩

/-- **The merged set is never refused**: the rules can be merged if the file can be read and
the definition of an enabled rule is accepted. -/
lemma mergedRules_of (hfile : Readable file) (hrule : Accepted rule) :
    ∃ set, mergedRules path file rule = .ok set := by
  obtain ⟨base, hbase⟩ := readable_iff.mp hfile
  obtain ⟨incoming, hin⟩ := incoming_ok hrule
  obtain ⟨-, hmade, hvalid⟩ := incoming_made hin
  simp only [mergedRules, bind_eq_ok, mapError_eq_ok]
  exact ⟨_, base, hbase, incoming, hin, (), merged_valid (load_valid hbase) rfl hmade hvalid, rfl⟩

end Rules

/-! ### What an event leaves behind -/

section Events

variable {w deviceId} {s s' s'' : Local} {e : SyncEvent} {rule : AgentRule} {roomId : String}
  {root : ManagedRoot}

/-- A root as it was, or detached since by a write that went through. -/
def Since (w : Surroundings) (r r' : ManagedRoot) : Prop :=
  r' = r ∨ r.roomBindingStatus ≠ .detached ∧ r' = detached r w.now ∧ w.persist r.rootId = none

/-- What a page does to what the desktop has: rooms are found where they were, and a rules
file that could be read can be read. -/
structure Later (w : Surroundings) (s s' : Local) : Prop where
  found : ∀ roomId, Option.Rel (Since w) (findByRoom s.roots roomId) (findByRoom s'.roots roomId)
  rules : ∀ path, s'.rules path = s.rules path ∨ Readable (s.rules path) ∧
    ∃ set, s'.rules path = .parsed set ∧ set.validate = .ok ()
  cursor : s'.cursor = s.cursor

lemma Since.path {r r' : ManagedRoot} (h : Since w r r') : r'.root = r.root := by
  obtain rfl | ⟨-, rfl, -⟩ := h <;> rfl

lemma Since.trans {a b c : ManagedRoot} (h : Since w a b) (h' : Since w b c) : Since w a c := by
  obtain rfl | ⟨hn, rfl, hp⟩ := h
  · exact h'
  · obtain rfl | ⟨hn', -⟩ := h'
    · exact .inr ⟨hn, rfl, hp⟩
    · exact absurd rfl hn'

lemma Later.refl : Later w s s where
  found := fun roomId => by
    cases findByRoom s.roots roomId with
    | none => exact .none
    | some r => exact .some (.inl rfl)
  rules := fun _ => .inl rfl
  cursor := rfl

lemma Later.forward (h : Later w s s') (hf : findByRoom s.roots roomId = some root) :
    ∃ root', findByRoom s'.roots roomId = some root' ∧ Since w root root' := by
  have := h.found roomId
  rw [hf] at this
  cases hf' : findByRoom s'.roots roomId with
  | none =>
    rw [hf'] at this
    cases this
  | some r =>
    rw [hf'] at this
    cases this with | some hs => exact ⟨r, rfl, hs⟩

lemma Later.backward (h : Later w s s') (hf : findByRoom s'.roots roomId = some root) :
    ∃ root', findByRoom s.roots roomId = some root' ∧ Since w root' root := by
  have := h.found roomId
  rw [hf] at this
  cases hf' : findByRoom s.roots roomId with
  | none =>
    rw [hf'] at this
    cases this
  | some r =>
    rw [hf'] at this
    cases this with | some hs => exact ⟨r, rfl, hs⟩

lemma Later.parsed (h : Later w s s') {path : String}
    (hp : ∃ set, s.rules path = .parsed set ∧ set.validate = .ok ()) :
    ∃ set, s'.rules path = .parsed set ∧ set.validate = .ok () := by
  obtain hsame | ⟨-, hp'⟩ := h.rules path
  · rwa [hsame]
  · exact hp'

lemma Later.readable (h : Later w s s') (path : String) :
    Readable (s'.rules path) ↔ Readable (s.rules path) := by
  obtain hsame | ⟨hr, hp⟩ := h.rules path
  · rw [hsame]
  · exact iff_of_true (.inr hp) hr

lemma Later.trans (h : Later w s s') (h' : Later w s' s'') : Later w s s'' where
  found := fun roomId => by
    cases hf : findByRoom s.roots roomId with
    | none =>
      cases hf'' : findByRoom s''.roots roomId with
      | none => exact .none
      | some r =>
        obtain ⟨r', hr', -⟩ := h'.backward hf''
        obtain ⟨r'', hr'', -⟩ := h.backward hr'
        rw [hf] at hr''
        cases hr''
    | some r =>
      obtain ⟨r', hr', hs⟩ := h.forward hf
      obtain ⟨r'', hr'', hs'⟩ := h'.forward hr'
      rw [hr'']
      exact .some (hs.trans hs')
  rules := fun path => by
    obtain hsame | ⟨hr, hp⟩ := h'.rules path
    · rw [hsame]
      exact h.rules path
    · exact .inr ⟨(h.readable path).mp hr, hp⟩
  cursor := h'.cursor.trans h.cursor

lemma Later.createdApplies (h : Later w s s') : CreatedApplies w s' e ↔ CreatedApplies w s e := by
  constructor
  · rintro ⟨ha, hc⟩
    refine ⟨ha, fun rule he => ?_⟩
    obtain ⟨root, hf, hread, hacc, hwr⟩ := hc rule he
    obtain ⟨root', hf', hsince⟩ := h.backward hf
    rw [hsince.path] at hread hwr
    exact ⟨root', hf', (h.readable _).mp hread, hacc, hwr⟩
  · rintro ⟨ha, hc⟩
    refine ⟨ha, fun rule he => ?_⟩
    obtain ⟨root, hf, hread, hacc, hwr⟩ := hc rule he
    obtain ⟨root', hf', hsince⟩ := h.forward hf
    rw [← hsince.path] at hread hwr
    exact ⟨root', hf', (h.readable _).mpr hread, hacc, hwr⟩

/-- What the events before an event do makes no difference to whether it can be applied. -/
lemma Later.applicable (h : Later w s s') :
    Applicable w deviceId s' e ↔ Applicable w deviceId s e := by
  constructor
  · rintro ⟨hr, hc, hs⟩
    refine ⟨fun roomId he root hf hn => ?_, h.createdApplies.mp hc, hs⟩
    obtain ⟨root', hf', rfl | ⟨-, -, hp⟩⟩ := h.forward hf
    · exact hr roomId he root' hf' hn
    · exact hp
  · rintro ⟨hr, hc, hs⟩
    refine ⟨fun roomId he root hf hn => ?_, h.createdApplies.mpr hc, hs⟩
    obtain ⟨root', hf', rfl | ⟨-, rfl, -⟩⟩ := h.backward hf
    · exact hr roomId he root hf' hn
    · exact absurd rfl hn

lemma persistRoot_ok : persistRoot w root = .ok () ↔ w.persist root.rootId = none := by
  unfold persistRoot
  cases w.persist root.rootId <;> simp

/-- What detaching a room comes to. -/
lemma applyLocalRoomDetached_ok :
    ((applyLocalRoomDetached w roomId s).1 = .ok () ↔
      ∀ root, findByRoom s.roots roomId = some root → root.roomBindingStatus ≠ .detached →
        w.persist root.rootId = none) ∧
    ((applyLocalRoomDetached w roomId s).1 = .ok () →
      Later w s (applyLocalRoomDetached w roomId s).2 ∧
      ∀ root, findByRoom (applyLocalRoomDetached w roomId s).2.roots roomId = some root →
        root.roomBindingStatus = .detached) := by
  unfold applyLocalRoomDetached
  cases hf : findByRoom s.roots roomId with
  | none => exact ⟨by simp, fun _ => ⟨.refl, by simp [hf]⟩⟩
  | some root =>
    by_cases hn : root.roomBindingStatus = .detached
    · simp only [hn, ne_eq, not_true, if_false, true_iff]
      refine ⟨fun _ h h' => ?_, fun _ => ⟨.refl, fun _ h => ?_⟩⟩
      · cases h
        exact absurd hn h'
      · rw [hf] at h
        cases h
        exact hn
    · obtain ⟨roots', hd, hroom, hfound⟩ := @detachRoom_of_find _ _ _ w.now hf hn
      simp only [ne_eq, hn, not_false_iff, if_true, hd]
      refine ⟨?_, fun hp => ⟨⟨fun y => ?_, fun _ => .inl rfl, rfl⟩, fun r hr => ?_⟩⟩
      · rw [persistRoot_ok]
        exact ⟨fun h _ h' _ => Option.some.inj h' ▸ h, fun h => h root rfl hn⟩
      · have hpersist : w.persist root.rootId = none := persistRoot_ok.mp hp
        have := hfound y
        revert this
        cases findByRoom s.roots y <;> cases findByRoom roots' y <;> intro this <;> cases this
        · exact .none
        · rename_i r r' h
          obtain h | ⟨rfl, h⟩ := h
          · exact .some (.inl h)
          · exact .some (.inr ⟨hn, h, hpersist⟩)
      · rw [hroom] at hr
        cases hr
        rfl

/-- What applying a rule comes to. -/
lemma applyServerRuleToLocalRoot_ok :
    ((applyServerRuleToLocalRoot w rule s).1 = .ok () ↔
      ∃ root, findByRoom s.roots rule.roomId = some root ∧ RuleApplies w s rule root) ∧
    ((applyServerRuleToLocalRoot w rule s).1 = .ok () →
      Later w s (applyServerRuleToLocalRoot w rule s).2 ∧ ∃ root set,
        findByRoom (applyServerRuleToLocalRoot w rule s).2.roots rule.roomId = some root ∧
          (applyServerRuleToLocalRoot w rule s).2.rules root.root = .parsed set ∧
            set.validate = .ok ()) := by
  unfold applyServerRuleToLocalRoot
  cases hf : findByRoom s.roots rule.roomId with
  | none => simp
  | some root =>
    dsimp only
    generalize hpath : root.root ++ "/.mousekeeper" ++ "/rules.json" = path
    cases hm : mergedRules path (s.rules root.root) rule with
    | error message =>
      refine ⟨⟨fun h => (by cases h), ?_⟩, fun h => (by cases h)⟩
      rintro ⟨_, ⟨⟩, hread, hacc, -⟩
      obtain ⟨set, hset⟩ : ∃ set, mergedRules path (s.rules root.root) rule = .ok set :=
        mergedRules_of hread hacc
      rw [hm] at hset
      cases hset
    | ok merged =>
      obtain ⟨hread, hacc, hvalid⟩ := mergedRules_ok hm
      cases hc : w.createDir root.root with
      | some message =>
        refine ⟨⟨fun h => (by cases h), ?_⟩, fun h => (by cases h)⟩
        rintro ⟨_, ⟨⟩, -, -, hw, -⟩
        rw [hc] at hw
        cases hw
      | none =>
        cases hwr : w.writeRules root.root with
        | some failure =>
          refine ⟨⟨fun h => (by cases h), ?_⟩, fun h => (by cases h)⟩
          rintro ⟨_, ⟨⟩, -, -, -, hw⟩
          rw [hwr] at hw
          cases hw
        | none =>
          refine ⟨iff_of_true rfl ⟨root, rfl, hread, hacc, hc, hwr⟩, fun _ => ⟨⟨?_, ?_, rfl⟩, ?_⟩⟩
          · exact Later.refl.found
          · intro p
            by_cases hp : p = root.root
            · subst hp
              exact .inr ⟨hread, merged, Function.update_self .., hvalid⟩
            · exact .inl (Function.update_of_ne hp ..)
          · exact ⟨root, merged, hf, Function.update_self .., hvalid⟩

lemma listRules_ok {rules : List AgentRule} : listRules w roomId = .ok rules ↔
    (validateOpaqueValue roomId 200 = true ∧ ∀ r ∈ w.rules roomId, validateRule r = .ok ()) ∧
      rules = w.rules roomId := by
  unfold listRules
  split_ifs with hv
  · simp only [bind_eq_ok, hv, true_and]
    constructor
    · rintro ⟨_, hall, h⟩
      exact ⟨checkAll_ok.mp hall, (Except.ok.inj h).symm⟩
    · rintro ⟨hall, rfl⟩
      exact ⟨(), checkAll_ok.mpr hall, rfl⟩
  · simp [hv]

/-- The rule of a created event stands in the folder of its room. -/
def RuleStands (w : Surroundings) (e : SyncEvent) (s : Local) : Prop :=
  ∀ rule, createdRule w e = some rule → ∃ root set, findByRoom s.roots rule.roomId = some root ∧
    s.rules root.root = .parsed set ∧ set.validate = .ok ()

lemma applyRuleCreatedEvent_ok :
    ((∃ b, (applyRuleCreatedEvent w e s).1 = .ok b) ↔ CreatedApplies w s e) ∧
    ((∃ b, (applyRuleCreatedEvent w e s).1 = .ok b) →
      Later w s (applyRuleCreatedEvent w e s).2 ∧
        RuleStands w e (applyRuleCreatedEvent w e s).2) := by
  unfold applyRuleCreatedEvent CreatedApplies RuleStands createdRule
  by_cases ht : e.eventType = "rule.created"
  · simp only [ht, ne_eq, not_true, if_false, if_true, forall_const]
    cases hroom : e.roomId with
    | none => simpa using Later.refl
    | some roomId =>
      simp only [Option.bind_some, Option.some.injEq, forall_eq']
      cases hl : listRules w roomId with
      | error message =>
        have hn : ¬ (validateOpaqueValue roomId 200 = true ∧
            ∀ r ∈ w.rules roomId, validateRule r = .ok ()) := fun h => by
          rw [listRules_ok.mpr ⟨h, rfl⟩] at hl
          cases hl
        simp [hn]
      | ok rules =>
        obtain ⟨hanswered, rfl⟩ := listRules_ok.mp hl
        dsimp only
        cases hfind : (w.rules roomId).find? fun r => r.ruleId = e.ruleId with
        | none =>
          exact ⟨iff_of_true ⟨false, rfl⟩ ⟨hanswered, by simp⟩, fun _ => ⟨.refl, by simp⟩⟩
        | some rule =>
          obtain ⟨hiff, hdone⟩ := @applyServerRuleToLocalRoot_ok w s rule
          dsimp only
          generalize applyServerRuleToLocalRoot w rule s = o at hiff hdone ⊢
          obtain ⟨result, s'⟩ := o
          simp only [Option.some.injEq, forall_eq'] at hiff hdone ⊢
          rw [← hiff]
          cases result with
          | error message => exact ⟨⟨fun h => (by cases h.choose_spec), fun h => (by cases h.2)⟩,
              fun h => (by cases h.choose_spec)⟩
          | ok u => exact ⟨iff_of_true ⟨true, rfl⟩ ⟨hanswered, rfl⟩, fun _ => hdone rfl⟩
  · simpa [ht] using Later.refl

/-- A removed room is not active. -/
def RoomClosed (e : SyncEvent) (s : Local) : Prop :=
  ∀ roomId, e.removedRoom = some roomId → ∀ root, findByRoom s.roots roomId = some root →
    root.roomBindingStatus = .detached

lemma Later.ruleStands (h : Later w s s') (hr : RuleStands w e s) : RuleStands w e s' :=
  fun rule he => by
    obtain ⟨root, set, hf, hset⟩ := hr rule he
    obtain ⟨root', hf', hsince⟩ := h.forward hf
    obtain ⟨set', hset'⟩ := h.parsed ⟨set, hset⟩
    exact ⟨root', set', hf', by rwa [hsince.path]⟩

lemma Later.roomClosed (h : Later w s s') (hc : RoomClosed e s) : RoomClosed e s' :=
  fun roomId he root hf => by
    obtain ⟨root', hf', rfl | ⟨-, rfl, -⟩⟩ := h.backward hf
    · exact hc roomId he root hf'
    · rfl

lemma applyRoomRemovedEvent_ok :
    ((applyRoomRemovedEvent w e s).1 = .ok () ↔
      ∀ roomId, e.removedRoom = some roomId → ∀ root, findByRoom s.roots roomId = some root →
        root.roomBindingStatus ≠ .detached → w.persist root.rootId = none) ∧
    ((applyRoomRemovedEvent w e s).1 = .ok () →
      Later w s (applyRoomRemovedEvent w e s).2 ∧ RoomClosed e (applyRoomRemovedEvent w e s).2) := by
  unfold applyRoomRemovedEvent RoomClosed
  cases he : e.removedRoom with
  | none => simpa using Later.refl
  | some roomId => simpa using applyLocalRoomDetached_ok

/-- **One event.** -/
lemma applyEvent_ok :
    ((applyEvent w deviceId e s).1 = .ok .continue ↔ Applicable w deviceId s e) ∧
    ((applyEvent w deviceId e s).1 = .ok .continue →
      Later w s (applyEvent w deviceId e s).2 ∧ RuleStands w e (applyEvent w deviceId e s).2 ∧
        RoomClosed e (applyEvent w deviceId e s).2) := by
  obtain ⟨hremoved, hclosed⟩ := @applyRoomRemovedEvent_ok w s e
  unfold applyEvent
  generalize applyRoomRemovedEvent w e s = o at hremoved hclosed ⊢
  obtain ⟨_ | _, s₁⟩ := o
  · exact ⟨⟨fun h => (by cases h), fun h => (by cases hremoved.mpr h.removed)⟩,
      fun h => (by cases h)⟩
  · obtain ⟨hlater, hclosed⟩ := hclosed rfl
    obtain ⟨hcreated, hstands⟩ := @applyRuleCreatedEvent_ok w s₁ e
    dsimp only
    generalize applyRuleCreatedEvent w e s₁ = o at hcreated hstands ⊢
    rw [hlater.createdApplies] at hcreated
    obtain ⟨_ | b, s₂⟩ := o
    · exact ⟨⟨fun h => (by cases h), fun h => (by cases (hcreated.mpr h.created).choose_spec)⟩,
        fun h => (by cases h)⟩
    · obtain ⟨hlater', hstands⟩ := hstands ⟨b, rfl⟩
      have happlies := hcreated.mp ⟨b, rfl⟩
      dsimp only
      split_ifs with hrevokes
      · have hne : ∀ {o : Except String Unit × Local}, (match o with
            | (.error message, s) => ((.error message : Except String ReplayOutcome), s)
            | (.ok _, s) => (.ok .deviceRevoked, s)).1 ≠ .ok .continue := by
          rintro ⟨_ | _, _⟩ h <;> cases h
        exact ⟨⟨fun h => absurd h hne, fun h => (by cases h.stays.symm.trans hrevokes)⟩,
          fun h => absurd h hne⟩
      · exact ⟨iff_of_true rfl ⟨hremoved.mp rfl, happlies, by simpa using hrevokes⟩,
          fun _ => ⟨hlater.trans hlater', hstands, hlater'.roomClosed hclosed⟩⟩

/-- **All events of a page.** -/
lemma applyEvents_ok {es : List SyncEvent} :
    ((applyEvents w deviceId es s).1 = .ok .continue ↔ ∀ e ∈ es, Applicable w deviceId s e) ∧
    ((applyEvents w deviceId es s).1 = .ok .continue →
      Later w s (applyEvents w deviceId es s).2 ∧
        ∀ e ∈ es, RuleStands w e (applyEvents w deviceId es s).2 ∧
          RoomClosed e (applyEvents w deviceId es s).2) := by
  induction es generalizing s with
  | nil => exact ⟨by simp [applyEvents], fun _ => ⟨.refl, by simp⟩⟩
  | cons e es ih =>
    obtain ⟨hiff, hdone⟩ := @applyEvent_ok w deviceId s e
    rw [applyEvents, List.forall_mem_cons]
    generalize applyEvent w deviceId e s = o at hiff hdone ⊢
    obtain ⟨_ | _ | _, s₁⟩ := o
    · exact ⟨⟨fun h => (by cases h), fun h => (by cases hiff.mpr h.1)⟩, fun h => (by cases h)⟩
    · obtain ⟨hlater, hstands, hclosed⟩ := hdone rfl
      obtain ⟨ihiff, ihdone⟩ := @ih s₁
      refine ⟨?_, fun h => ?_⟩
      · have hsame : (∀ e ∈ es, Applicable w deviceId s₁ e) ↔ ∀ e ∈ es, Applicable w deviceId s e :=
          forall₂_congr fun _ _ => hlater.applicable
        exact ihiff.trans (hsame.trans (and_iff_right (hiff.mp rfl)).symm)
      · obtain ⟨hlater', hall⟩ := ihdone h
        exact ⟨hlater.trans hlater', List.forall_mem_cons.mpr
          ⟨⟨hlater'.ruleStands hstands, hlater'.roomClosed hclosed⟩, hall⟩⟩
    · exact ⟨⟨fun h => (by cases h), fun h => (by cases hiff.mpr h.1)⟩, fun h => (by cases h)⟩

lemma advance_ok {sequence : ℕ} (h : s.cursor ≤ sequence) :
    ((advance w sequence s).1 = .ok () ↔ sequence ≤ I64_MAX ∧ w.saveCursor sequence = none) ∧
    ((advance w sequence s).1 = .ok () → (advance w sequence s).2 = { s with cursor := sequence }) := by
  unfold advance
  rw [if_neg (by omega)]
  split_ifs with hmax
  · exact ⟨⟨fun h => (by cases h), fun h => absurd h.1 (by omega)⟩, fun h => (by cases h)⟩
  · cases hsave : w.saveCursor sequence with
    | some message => exact ⟨⟨fun h => (by cases h), fun h => (by cases h.2)⟩, fun h => (by cases h)⟩
    | none => exact ⟨iff_of_true rfl ⟨by omega, rfl⟩, fun _ => rfl⟩

/-- The sequences of a page lie above the cursor. -/
lemma cursor_le_of_mem {es : List SyncEvent} {after : ℕ} (h : validateSyncEvents after es = .ok ())
    (he : e ∈ es) : after ≤ e.sequence := by
  induction es generalizing after with
  | nil => cases he
  | cons e' es ih =>
    rw [validateSyncEvents] at h
    split_ifs at h with hbad
    have hlt : after < e'.sequence := by
      by_contra hle
      exact hbad (.inl (by omega))
    rcases List.mem_cons.mp he with rfl | he
    · omega
    · have := ih h he
      omega

/-- What a page and a desktop have to be for the cursor to move: the envelopes are in order,
every event can be applied, and the last sequence can be saved. -/
structure Replayable (w : Surroundings) (deviceId : String) (page : List SyncEvent) (s : Local) :
    Prop where
  envelopes : validateSyncEvents s.cursor page = .ok ()
  events : ∀ e ∈ page, Applicable w deviceId s e
  saved : ∀ last, page.getLast? = some last →
    last.sequence ≤ I64_MAX ∧ w.saveCursor last.sequence = none

lemma replayEvents_ok {page : List SyncEvent} :
    ((replayEvents w deviceId page s).1 = .ok .continue ↔ Replayable w deviceId page s) ∧
    ((replayEvents w deviceId page s).1 = .ok .continue →
      (∀ last, page.getLast? = some last →
        (replayEvents w deviceId page s).2.cursor = last.sequence) ∧
      ∀ e ∈ page, RuleStands w e (replayEvents w deviceId page s).2 ∧
        RoomClosed e (replayEvents w deviceId page s).2) := by
  unfold replayEvents
  cases hv : validateSyncEvents s.cursor page with
  | error message =>
    exact ⟨⟨fun h => (by cases h), fun h => (by cases hv.symm.trans h.envelopes)⟩,
      fun h => (by cases h)⟩
  | ok u =>
    obtain ⟨hiff, hdone⟩ := @applyEvents_ok w deviceId s page
    dsimp only
    generalize applyEvents w deviceId page s = o at hiff hdone ⊢
    obtain ⟨_ | _ | _, s₁⟩ := o
    · exact ⟨⟨fun h => (by cases h), fun h => (by cases hiff.mpr h.events)⟩, fun h => (by cases h)⟩
    · obtain ⟨hlater, hall⟩ := hdone rfl
      have hevents := hiff.mp rfl
      cases hl : page.getLast? with
      | none => exact ⟨iff_of_true rfl ⟨hv, hevents, by simp [hl]⟩, fun _ => ⟨by simp, hall⟩⟩
      | some last =>
        have hle : s₁.cursor ≤ last.sequence :=
          hlater.cursor ▸ cursor_le_of_mem hv (List.mem_of_getLast? hl)
        obtain ⟨hsave, hafter⟩ := @advance_ok w s₁ last.sequence hle
        dsimp only
        generalize advance w last.sequence s₁ = o at hsave hafter ⊢
        obtain ⟨_ | _, s₂⟩ := o
        · exact ⟨⟨fun h => (by cases h), fun h => (by cases hsave.mpr (h.saved last hl))⟩,
            fun h => (by cases h)⟩
        · obtain rfl := hafter rfl
          exact ⟨iff_of_true rfl ⟨hv, hevents, fun l h => by
            cases hl.symm.trans h
            exact hsave.mp rfl⟩, fun _ => ⟨fun l h => by cases h; rfl, hall⟩⟩
    · exact ⟨⟨fun h => (by cases h), fun h => (by cases hiff.mpr h.events)⟩, fun h => (by cases h)⟩

end Events

/-- A created rule whose room is bound to no folder of this desktop. -/
def strayRule : SyncEvent :=
  { eventId := "event-1", eventType := "rule.created", schemaVersion := 1,
    correlationId := "request-1", aggregateType := "rule", aggregateId := "rule-1",
    deviceId := none, roomId := some "room-1", sequence := 1,
    occurredAt := "2026-01-01T00:00:00.000Z", payload := .obj [("ruleId", .str "rule-1")] }

/-- A server that answers the rule, and a disk that refuses nothing. -/
def answering : Surroundings :=
  { rules := fun _ => [⟨"rule-1", "room-1", "PDFs", .obj [], 10, true, 1⟩]
    persist := fun _ => none, createDir := fun _ => none, writeRules := fun _ => none
    saveCursor := fun _ => none, clearsCursor := true, forgetDevice := none, now := 0 }

end MouseKeeper.Desktop.EventReplay
