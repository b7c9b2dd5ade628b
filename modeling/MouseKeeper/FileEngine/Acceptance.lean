import MouseKeeper.FileEngine.Contract

/-!
Which stored rule definitions the engine accepts.

The engine reads back every definition that the server has let through. It refuses those that
set one condition twice under `ALL`, and those with a text that is blank to it and not to the
server.
-/

namespace MouseKeeper.FileEngine

open Contracts (Json Fields RuleCondition RuleAction RuleDefinition asStrWith_check mem_of_mapM)
open Posix

/-! ### The conditions of the claim -/

/-- The fields of `Condition` that the contract can set. -/
inductive Slot
  | extensionIn | olderThanDays | modifiedAgeDaysGte | modifiedAgeDaysGt | createdAgeDaysGte
  | createdAgeDaysGt | sizeBytesGte | sizeBytesLte | relativePathStartsWith | fileKind
  | nameContains | nameStartsWith | nameEndsWith
  deriving DecidableEq

/-- Conditions with one slot have the same field and the same operator. -/
def slot : RuleCondition → Slot
  | .extension _ => .extensionIn
  | .ageDays _ => .olderThanDays
  | .fileAge .modifiedAgeDays .gte _ => .modifiedAgeDaysGte
  | .fileAge .modifiedAgeDays .gt _ => .modifiedAgeDaysGt
  | .fileAge .createdAgeDays .gte _ => .createdAgeDaysGte
  | .fileAge .createdAgeDays .gt _ => .createdAgeDaysGt
  | .sizeBytes .gte _ => .sizeBytesGte
  | .sizeBytes .lte _ => .sizeBytesLte
  | .relativePath _ => .relativePathStartsWith
  | .fileKind _ => .fileKind
  | .name .contains _ => .nameContains
  | .name .startsWith _ => .nameStartsWith
  | .name .endsWith _ => .nameEndsWith

/-- A text of the condition that is blank. -/
def BlankCondition : RuleCondition → Prop
  | .relativePath value | .name _ value => trim value = ""
  | _ => False

instance : DecidablePred BlankCondition
  | .relativePath value | .name _ value => inferInstanceAs (Decidable (trim value = ""))
  | .extension _ | .ageDays _ | .fileAge _ _ _ | .sizeBytes _ _ | .fileKind _ =>
    inferInstanceAs (Decidable False)

def BlankAction : RuleAction → Prop
  | .move path | .createDir path => trim path = ""
  | _ => False

instance : DecidablePred BlankAction
  | .move path | .createDir path => inferInstanceAs (Decidable (trim path = ""))
  | .quarantine | .trash => inferInstanceAs (Decidable False)

/-- No condition is set twice, and no text is blank. -/
structure Clear (d : RuleDefinition) : Prop where
  once : d.mode = .all → (d.conditions.map slot).Nodup
  conditions : ∀ c ∈ d.conditions, ¬ BlankCondition c
  action : ¬ BlankAction d.action

/-! ### What the server lets through -/

/-- What the schema asks of a condition. -/
def Stored : RuleCondition → Prop
  | .extension value => value ≠ [] ∧ ∀ e ∈ value, Contracts.isExtension e = true
  | .ageDays value | .fileAge _ _ value => value < 2 ^ 32
  | .sizeBytes _ value => value < 2 ^ 64
  | .relativePath value => Contracts.relativePathSchema value = true
  | .fileKind _ | .name _ _ => True

def StoredAction : RuleAction → Prop
  | .move path | .createDir path => Contracts.relativePathSchema path = true
  | .quarantine | .trash => True

lemma asNat_le {j : Json} {n : ℕ} (h : j.asNat = some n) : n ≤ Json.MAX_SAFE_INTEGER := by
  unfold Json.asNat at h
  split at h
  · split at h
    · next hq =>
      cases h
      exact hq.2.2
    · cases h
  · cases h

lemma asNatUpTo_le {max n : ℕ} {j : Json} (h : Contracts.asNatUpTo max j = some n) : n ≤ max := by
  simp only [Contracts.asNatUpTo, Option.bind_eq_bind, Option.bind_eq_some_iff] at h
  obtain ⟨m, -, h⟩ := h
  split at h
  · next hm =>
    cases h
    exact hm
  · cases h

lemma stored_of_condition {j : Json} {c : RuleCondition} (h : Contracts.conditionSchema j = some c) :
    Stored c := by
  simp only [Contracts.conditionSchema, Option.bind_eq_bind, Option.bind_eq_some_iff] at h
  obtain ⟨fields, -, x, -, field, -, value, -, h⟩ := h
  split at h
  · simp only [Contracts.extensionCondition, Option.bind_eq_bind, Option.bind_eq_some_iff] at h
    obtain ⟨_, -, items, -, extensions, hext, h⟩ := h
    split at h
    · next hlen =>
      cases h
      refine ⟨fun h0 => by simp [h0] at hlen, fun e he => ?_⟩
      obtain ⟨j, -, hj⟩ := mem_of_mapM hext e he
      exact asStrWith_check hj
    · cases h
  split at h
  · simp only [Contracts.ageCondition, Option.bind_eq_bind, Option.bind_eq_some_iff,
      Option.map_eq_map, Option.map_eq_some_iff] at h
    obtain ⟨_, -, n, hn, rfl⟩ := h
    exact lt_of_le_of_lt (asNatUpTo_le hn) (by decide)
  split at h
  · simp only [Contracts.fileAgeCondition, Option.bind_eq_bind, Option.bind_eq_some_iff,
      Option.map_eq_map, Option.map_eq_some_iff] at h
    obtain ⟨_, -, n, hn, rfl⟩ := h
    exact lt_of_le_of_lt (asNatUpTo_le hn) (by decide)
  split at h
  · simp only [Contracts.fileAgeCondition, Option.bind_eq_bind, Option.bind_eq_some_iff,
      Option.map_eq_map, Option.map_eq_some_iff] at h
    obtain ⟨_, -, n, hn, rfl⟩ := h
    exact lt_of_le_of_lt (asNatUpTo_le hn) (by decide)
  split at h
  · simp only [Contracts.sizeCondition, Option.bind_eq_bind, Option.bind_eq_some_iff,
      Option.map_eq_map, Option.map_eq_some_iff] at h
    obtain ⟨_, -, n, hn, rfl⟩ := h
    exact lt_of_le_of_lt (asNat_le hn) (by decide)
  split at h
  · simp only [Contracts.relativePathCondition, Option.bind_eq_bind, Option.bind_eq_some_iff,
      Option.map_eq_map, Option.map_eq_some_iff] at h
    obtain ⟨_, -, s, hs, rfl⟩ := h
    exact asStrWith_check hs
  split at h
  · simp only [Contracts.fileKindCondition, Option.bind_eq_bind, Option.bind_eq_some_iff,
      Option.map_eq_map, Option.map_eq_some_iff] at h
    obtain ⟨_, -, k, -, rfl⟩ := h
    exact True.intro
  split at h
  · simp only [Contracts.nameCondition, Option.bind_eq_bind, Option.bind_eq_some_iff,
      Option.map_eq_map, Option.map_eq_some_iff] at h
    obtain ⟨_, -, s, -, rfl⟩ := h
    exact True.intro
  · cases h

lemma stored_of_action {j : Json} {a : RuleAction} (h : Contracts.actionSchema j = some a) :
    StoredAction a := by
  simp only [Contracts.actionSchema, Option.bind_eq_bind, Option.bind_eq_some_iff] at h
  obtain ⟨fields, -, x, -, type, -, h⟩ := h
  split at h
  · simp only [Option.bind_eq_some_iff, Option.map_eq_map, Option.map_eq_some_iff] at h
    obtain ⟨fields, -, j, -, s, hs, rfl⟩ := h
    exact asStrWith_check hs
  split at h
  · obtain ⟨_, -, rfl⟩ := Option.map_eq_some_iff.mp h
    exact True.intro
  split at h
  · obtain ⟨_, -, rfl⟩ := Option.map_eq_some_iff.mp h
    exact True.intro
  split at h
  · simp only [Option.bind_eq_some_iff, Option.map_eq_map, Option.map_eq_some_iff] at h
    obtain ⟨fields, -, j, -, s, hs, rfl⟩ := h
    exact asStrWith_check hs
  · cases h

lemma stored_of_schema {j : Json} {d : RuleDefinition}
    (h : Contracts.ruleDefinitionSchema j = some d) :
    d.conditions ≠ [] ∧ (∀ c ∈ d.conditions, Stored c) ∧ StoredAction d.action := by
  simp only [Contracts.ruleDefinitionSchema, Option.bind_eq_bind, Option.bind_eq_some_iff] at h
  obtain ⟨fields, -, mode, -, x, -, items, -, conditions, hconditions, y, -, action, haction, h⟩ := h
  split at h
  · next hlen =>
    cases h
    refine ⟨fun h0 => ?_, fun c hc => ?_, stored_of_action haction⟩
    · change conditions = [] at h0
      simp [h0] at hlen
    · obtain ⟨j, -, hj⟩ := mem_of_mapM hconditions c hc
      exact stored_of_condition hj
  · cases h

/-! ### Reading back -/

def convert : RuleCondition → ContractCondition
  | .extension value => .extension value
  | .ageDays value => .ageDays value
  | .fileAge .modifiedAgeDays .gte value => .modifiedAgeDays .gte value
  | .fileAge .modifiedAgeDays .gt value => .modifiedAgeDays .gt value
  | .fileAge .createdAgeDays .gte value => .createdAgeDays .gte value
  | .fileAge .createdAgeDays .gt value => .createdAgeDays .gt value
  | .sizeBytes .gte value => .sizeBytes .gte value
  | .sizeBytes .lte value => .sizeBytes .lte value
  | .relativePath value => .relativePath value
  | .fileKind .file => .fileKind .file
  | .fileKind .directory => .fileKind .directory
  | .name .contains value => .name .contains value
  | .name .startsWith value => .name .startsWith value
  | .name .endsWith value => .name .endsWith value

def convertAction : RuleAction → ContractAction
  | .move path => .move path
  | .quarantine => .quarantine
  | .trash => .trash
  | .createDir path => .createDir path

def convertMatch : Contracts.Match → ContractMatchMode
  | .all => .all
  | .any => .any

lemma unsigned_ofNat {bits n : ℕ} (h : n < 2 ^ bits) : unsigned bits (.ofNat n) = some n := by
  have hq : ((n : Rat).den = 1 ∧ 0 ≤ (n : Rat).num ∧ (n : Rat).num.toNat < 2 ^ bits) := by
    simp [h]
  rw [Json.ofNat, unsigned, if_pos hq]
  simp

lemma mapM_map {α β γ : Type} {f : β → Option γ} {g : α → β} {k : α → γ} {l : List α}
    (h : ∀ a ∈ l, f (g a) = some (k a)) : (l.map g).mapM f = some (l.map k) := by
  induction l with
  | nil => rfl
  | cons a l ih =>
    have ha := h a List.mem_cons_self
    have hl := ih fun b hb => h b (List.mem_cons_of_mem a hb)
    simp [List.mapM_cons, ha, hl]

/-- A stored condition has its three fields. -/
lemma get_condition (field operator : String) (value : Json) :
    ∃ fields : Fields, Contracts.condition field operator value = .obj fields ∧
      fields.get "field" = some (.str field) ∧ fields.get "operator" = some (.str operator) ∧
      fields.get "value" = some value :=
  ⟨_, rfl, by simp [Fields.get], by simp [Fields.get], by simp [Fields.get]⟩

lemma operated_eq {o v c : Type} {operators : List (String × o)} {value : Json → Option v}
    {make : o → v → c} {fields : Fields} {operator : String} {j : Json} {x : v} (op : o)
    (ho : fields.get "operator" = some (.str operator)) (hv : fields.get "value" = some j)
    (hop : variant operators (.str operator) = some op) (hx : value j = some x) :
    operated operators value make fields = some (make op x) := by
  simp [operated, ho, hv, hop, hx]

lemma deserialize_condition {c : RuleCondition} (h : Stored c) :
    ContractCondition.deserialize c.toJson = some (convert c) := by
  cases c with
  | extension value =>
    obtain ⟨fields, hj, hf, ho, hv⟩ := get_condition "extension" "IN" (.arr (value.map .str))
    have hl : (value.map Json.str).mapM Json.asStr = some value := by
      have hm := mapM_map (f := Json.asStr) (g := .str) (k := id) (l := value) fun _ _ => rfl
      rwa [List.map_id] at hm
    rw [RuleCondition.toJson, hj]
    simp only [ContractCondition.deserialize, Json.asObj, hf, Json.asStr, Option.bind_eq_bind,
      Option.bind_some, if_pos]
    exact operated_eq () ho hv rfl hl
  | ageDays value =>
    obtain ⟨fields, hj, hf, ho, hv⟩ := get_condition "ageDays" "GTE" (.ofNat value)
    rw [RuleCondition.toJson, hj]
    simp only [ContractCondition.deserialize, Json.asObj, hf, Json.asStr, Option.bind_eq_bind,
      Option.bind_some]
    exact operated_eq () ho hv rfl (unsigned_ofNat h)
  | fileAge field operator value =>
    obtain ⟨fields, hj, hf, ho, hv⟩ := get_condition field.text operator.text (.ofNat value)
    rw [RuleCondition.toJson, hj]
    simp only [ContractCondition.deserialize, Json.asObj, hf, Json.asStr, Option.bind_eq_bind,
      Option.bind_some]
    cases field <;> cases operator <;> exact operated_eq _ ho hv rfl (unsigned_ofNat h)
  | sizeBytes operator value =>
    obtain ⟨fields, hj, hf, ho, hv⟩ := get_condition "sizeBytes" operator.text (.ofNat value)
    rw [RuleCondition.toJson, hj]
    simp only [ContractCondition.deserialize, Json.asObj, hf, Json.asStr, Option.bind_eq_bind,
      Option.bind_some]
    cases operator <;> exact operated_eq _ ho hv rfl (unsigned_ofNat h)
  | relativePath value =>
    obtain ⟨fields, hj, hf, ho, hv⟩ := get_condition "relativePath" "STARTS_WITH" (.str value)
    rw [RuleCondition.toJson, hj]
    simp only [ContractCondition.deserialize, Json.asObj, hf, Json.asStr, Option.bind_eq_bind,
      Option.bind_some]
    exact operated_eq () ho hv rfl rfl
  | fileKind value =>
    obtain ⟨fields, hj, hf, ho, hv⟩ := get_condition "fileKind" "EQ" (.str value.text)
    rw [RuleCondition.toJson, hj]
    simp only [ContractCondition.deserialize, Json.asObj, hf, Json.asStr, Option.bind_eq_bind,
      Option.bind_some]
    cases value <;> exact operated_eq () ho hv rfl rfl
  | name operator value =>
    obtain ⟨fields, hj, hf, ho, hv⟩ := get_condition "name" operator.text (.str value)
    rw [RuleCondition.toJson, hj]
    simp only [ContractCondition.deserialize, Json.asObj, hf, Json.asStr, Option.bind_eq_bind,
      Option.bind_some]
    cases operator <;> exact operated_eq _ ho hv rfl rfl

lemma deserialize_action (a : RuleAction) :
    ContractAction.deserialize a.toJson = some (convertAction a) := by
  cases a <;> rfl

/-- **What is stored is read back.** -/
lemma deserialize_stored {d : RuleDefinition} (h : ∀ c ∈ d.conditions, Stored c) :
    ContractRuleDefinition.deserialize d.toJson =
      some ⟨convertMatch d.mode, d.conditions.map convert, convertAction d.action⟩ := by
  have hc := mapM_map (f := ContractCondition.deserialize) fun c hc => deserialize_condition (h c hc)
  have hm : ContractMatchMode.deserialize (some (.str d.mode.text)) =
      some (convertMatch d.mode) := by
    cases d.mode <;> rfl
  have ha := deserialize_action d.action
  simp only [RuleDefinition.toJson, ContractRuleDefinition.deserialize, Json.asObj]
  simp [Fields.get, Fields.only, Json.asArr, hm, hc, ha]

/-! ### Text -/

lemma trim_eq_empty {s : String} : trim s = "" ↔ ∀ c ∈ s.toList, isWhitespace c = true := by
  have hd : ∀ {l : List Char}, l.dropWhile isWhitespace = [] ↔ ∀ c ∈ l, isWhitespace c = true :=
    List.dropWhile_eq_nil_iff
  rw [trim, ← String.toList_inj, String.toList_ofList, String.toList_empty,
    List.reverse_eq_nil_iff, hd]
  simp only [List.mem_reverse]
  constructor
  · intro h
    rw [← hd]
    by_contra hne
    -- what is left after the leading white space begins with no white space
    have hhead := List.head_dropWhile_not isWhitespace hne
    rw [h _ (List.head_mem hne)] at hhead
    cases hhead
  · exact fun h c hc => h c ((List.dropWhile_sublist _).subset hc)

lemma toNat_lt_of_alphanum {c : Char} (h : c.isAlphanum = true) : c.toNat < 128 := by
  obtain h | h := (Bool.or_eq_true _ _).mp (h : (c.isAlpha || c.isDigit) = true)
  · obtain h | h := (Bool.or_eq_true _ _).mp (h : (c.isUpper || c.isLower) = true)
    · have hle : c.toNat ≤ 90 := (of_decide_eq_true h).2
      omega
    · have hle : c.toNat ≤ 122 := of_decide_eq_true ((Bool.and_eq_true _ _).mp h).2
      omega
  · have hle : c.toNat ≤ 57 := of_decide_eq_true ((Bool.and_eq_true _ _).mp h).2
    omega

/-- Letters and digits, as they are and in lower case. -/
lemma alphanum_spec {c : Char} (h : c.isAlphanum = true) : isWhitespace c = false ∧ c ≠ '.' ∧
    isWhitespace c.toLower = false ∧ c.toLower ≠ '.' := by
  have hall : ∀ n < 128, (Char.ofNat n).isAlphanum = true →
      isWhitespace (Char.ofNat n) = false ∧ Char.ofNat n ≠ '.' ∧
        isWhitespace (Char.ofNat n).toLower = false ∧ (Char.ofNat n).toLower ≠ '.' := by
    decide +kernel
  have hc := hall c.toNat (toNat_lt_of_alphanum h)
  rw [Char.ofNat_toNat] at hc
  exact hc h

lemma trim_eq_self {s : String} (h : ∀ c ∈ s.toList, isWhitespace c = false) : trim s = s := by
  have hd : ∀ {l : List Char}, (∀ c ∈ l, isWhitespace c = false) → l.dropWhile isWhitespace = l := by
    intro l hl
    cases l with
    | nil => rfl
    | cons c l => simp [hl c List.mem_cons_self]
  rw [trim, hd h, hd fun c hc => h c (List.mem_reverse.mp hc), List.reverse_reverse,
    String.ofList_toList]

/-- An extension of the contract loses its dot. -/
lemma normalize_extension (ruleId : String) {extension : String}
    (h : Contracts.isExtension extension = true) :
    ∃ bare, normalizeContractExtension ruleId extension = .ok bare ∧ trim bare ≠ "" ∧
      '.' ∉ bare.toList := by
  unfold Contracts.isExtension at h
  split at h
  · next rest hrest =>
    simp only [Bool.and_eq_true, decide_eq_true_eq, List.all_eq_true] at h
    obtain ⟨hne, hall⟩ := h
    have htrim : trim extension = extension := by
      refine trim_eq_self fun c hc => ?_
      rw [hrest] at hc
      rcases List.mem_cons.mp hc with rfl | hc
      · decide
      · exact (alphanum_spec (hall c hc)).1
    have hdot : '.' ∉ rest := fun hd => (alphanum_spec (hall _ hd)).2.1 rfl
    refine ⟨toAsciiLowercase (String.ofList rest), ?_, ?_, ?_⟩
    · simp [normalizeContractExtension, htrim, hrest, hne, hdot]
    · rw [Ne, trim_eq_empty, toAsciiLowercase, String.toList_ofList, String.toList_ofList]
      obtain ⟨c, l, rfl⟩ := List.exists_cons_of_ne_nil hne
      intro hw
      have hc := (alphanum_spec (hall c List.mem_cons_self)).2.2.1
      rw [hw c.toLower (List.mem_map_of_mem List.mem_cons_self)] at hc
      cases hc
    · rw [toAsciiLowercase, String.toList_ofList, String.toList_ofList, List.mem_map]
      rintro ⟨c, hc, hd⟩
      exact (alphanum_spec (hall c hc)).2.2.2 hd
  · cases h

/-- A stored path is a directory unless it is blank. -/
lemma validateRelativeDir_stored {path : String} (h : Contracts.relativePathSchema path = true) :
    validateRelativeDir path = .ok () ↔ trim path ≠ "" := by
  obtain ⟨p, hp, rfl⟩ := Contracts.relativePath_text h
  have hnul : '\x00' ∉ p.text.toList ∧ isAbsolute p.text = false := by
    simp only [Contracts.relativePathSchema, Bool.and_eq_true, decide_eq_true_eq] at h
    exact ⟨h.1.1.1.1.2, by simpa [isAbsolute] using h.1.1.1.2⟩
  have hcomp : (components (segsOf p.text)).find? (fun x => x = .dotdot || x = .dot) = none := by
    rw [segsOf_text hp, List.find?_eq_none]
    intro x hx
    have hx' : x ∈ p.raw := by
      cases p with
      | nil => exact absurd rfl hp
      | cons n p =>
        have hx : x ∈ (Path.raw (n :: p)).filter fun x => !x.isTrivial := hx
        exact List.mem_of_mem_filter hx
    obtain ⟨n, -, rfl⟩ := List.mem_map.mp hx'
    simp
  unfold validateRelativeDir
  rw [hcomp]
  by_cases hb : trim p.text = "" <;> simp [hb, hnul.1, hnul.2]

/-! ### The check of a rule -/

lemma checkSome_ok {α ε : Type} {f : α → Except ε Unit} {o : Option α} :
    checkSome f o = .ok () ↔ ∀ a, o = some a → f a = .ok () := by
  cases o with
  | none => simp [checkSome]
  | some a => simp [checkSome]

lemma checkAll_ok {α ε : Type} {f : α → Except ε Unit} {l : List α} :
    checkAll f l = .ok () ↔ ∀ a ∈ l, f a = .ok () := by
  induction l with
  | nil => simp [checkAll]
  | cons a l ih =>
    rw [checkAll, bind_eq_ok, List.forall_mem_cons, ← ih]
    exact ⟨fun ⟨_, ha, hl⟩ => ⟨ha, hl⟩, fun ⟨ha, hl⟩ => ⟨(), ha, hl⟩⟩

lemma refuse_ok {ε : Type} {p : Prop} [Decidable p] {e : ε} :
    (if p then .error e else .ok () : Except ε Unit) = .ok () ↔ ¬ p := by
  split <;> simp [*]

/-- What the check asks of the texts of a condition. -/
@[mk_iff]
structure Condition.Passes (c : Condition) : Prop where
  extensions : ∀ l, c.extensionIn = some l → l ≠ [] ∧ ∀ e ∈ l, trim e ≠ "" ∧ '.' ∉ e.toList
  pattern : ∀ p, c.nameMatches = some p → trim p ≠ ""
  contains : ∀ p, c.nameContains = some p → trim p ≠ ""
  startsWith : ∀ p, c.nameStartsWith = some p → trim p ≠ ""
  endsWith : ∀ p, c.nameEndsWith = some p → trim p ≠ ""
  pre : ∀ p, c.relativePathStartsWith = some p → validateRelativeDir p = .ok ()

/-- The check of a rule with one action. -/
lemma validate_ok_iff {r : Rule} {a : ContractAction} (ha : r.action = a.intoAction) :
    r.validate = .ok () ↔ trim r.id ≠ "" ∧ r.when.isEmpty = false ∧ r.when.Passes ∧
      ∀ path, a = .move path ∨ a = .createDir path → validateRelativeDir path = .ok () := by
  have hcount : ¬ (r.action.moveTo.isSome.toNat + r.action.trash.toNat +
      r.action.createDir.isSome.toNat ≠ 1) := by
    rw [ha]
    cases a <;> simp [ContractAction.intoAction]
  have hact : (checkSome (fun t => (validateRelativeDir t).mapError (RuleError.invalidTarget r.id t))
        r.action.moveTo = .ok () ∧
      checkSome (fun t => (validateRelativeDir t).mapError (RuleError.invalidTarget r.id t))
        r.action.createDir = .ok ()) ↔
      ∀ path, a = .move path ∨ a = .createDir path → validateRelativeDir path = .ok () := by
    rw [ha]
    cases a <;> simp [ContractAction.intoAction, checkSome, mapError_eq_ok]
  unfold Rule.validate
  by_cases hid : trim r.id = ""
  · simp [hid]
  by_cases hempty : r.when.isEmpty = true
  · simp [hid, hempty]
  have hseq : ∀ {m k : Except RuleError Unit}, (m >>= fun _ => k) = .ok () ↔
      m = .ok () ∧ k = .ok () := fun {m k} =>
    ⟨fun h => by obtain ⟨_, hm, hk⟩ := bind_eq_ok.mp h; exact ⟨hm, hk⟩,
      fun h => bind_eq_ok.mpr ⟨(), h.1, h.2⟩⟩
  have hext : ∀ l : List String, (if l = [] then .error (.emptyExtensionList r.id)
      else checkAll (fun e => if trim e = "" ∨ '.' ∈ e.toList then
        .error (RuleError.invalidExtension r.id e) else .ok ()) l : Except RuleError Unit) = .ok () ↔
      l ≠ [] ∧ ∀ e ∈ l, trim e ≠ "" ∧ '.' ∉ e.toList := by
    intro l
    by_cases hl : l = []
    · simp [hl]
    · rw [if_neg hl, checkAll_ok]
      simp only [refuse_ok, not_or]
      exact (and_iff_right hl).symm
  rw [if_neg hid, if_neg hempty, ← hact, if_neg hcount]
  simp only [hseq, checkSome_ok, checkAll_ok, hext, List.forall_mem_cons, mapError_eq_ok, refuse_ok,
    validateRelativePathPrefix]
  constructor
  · rintro ⟨h1, h2, ⟨h3, h4, h5, -⟩, h6, h7⟩
    exact ⟨hid, by simpa using hempty, ⟨h1, h2, h3, h4, h5, h6⟩, h7⟩
  · rintro ⟨-, -, h, h7⟩
    exact ⟨h.extensions, h.pattern, ⟨h.contains, h.startsWith, h.endsWith, by simp⟩, h.pre, h7⟩

/-! ### Setting the conditions -/

def Condition.has (c : Condition) : Slot → Bool
  | .extensionIn => c.extensionIn.isSome
  | .olderThanDays => c.olderThanDays.isSome
  | .modifiedAgeDaysGte => c.modifiedAgeDaysGte.isSome
  | .modifiedAgeDaysGt => c.modifiedAgeDaysGt.isSome
  | .createdAgeDaysGte => c.createdAgeDaysGte.isSome
  | .createdAgeDaysGt => c.createdAgeDaysGt.isSome
  | .sizeBytesGte => c.sizeBytesGte.isSome
  | .sizeBytesLte => c.sizeBytesLte.isSome
  | .relativePathStartsWith => c.relativePathStartsWith.isSome
  | .fileKind => c.fileKind.isSome
  | .nameContains => c.nameContains.isSome
  | .nameStartsWith => c.nameStartsWith.isSome
  | .nameEndsWith => c.nameEndsWith.isSome

/-- What setting a condition makes of the others. -/
structure Sets (c : Condition) (x : RuleCondition) (c' : Condition) : Prop where
  has : ∀ s, c'.has s = true ↔ c.has s = true ∨ s = slot x
  passes : c'.Passes ↔ c.Passes ∧ ¬ BlankCondition x

lemma mapM_normalize (ruleId : String) {l : List String}
    (h : ∀ e ∈ l, Contracts.isExtension e = true) :
    ∃ l', l.mapM (normalizeContractExtension ruleId) = .ok l' ∧ l'.length = l.length ∧
      ∀ e ∈ l', trim e ≠ "" ∧ '.' ∉ e.toList := by
  induction l with
  | nil => exact ⟨[], rfl, rfl, fun e he => absurd he List.not_mem_nil⟩
  | cons e l ih =>
    obtain ⟨b, hb, htrim, hdot⟩ := normalize_extension ruleId (h e List.mem_cons_self)
    obtain ⟨l', hl', hlen, hall⟩ := ih fun e he => h e (List.mem_cons_of_mem _ he)
    refine ⟨b :: l', ?_, by simp [hlen], List.forall_mem_cons.mpr ⟨⟨htrim, hdot⟩, hall⟩⟩
    simp only [List.mapM_cons, hb, hl']
    rfl

/-- **One condition.** It is set where it was not. -/
lemma apply_ok_iff (ruleId : String) {c : Condition} {x : RuleCondition} (h : Stored x) :
    (∃ c', c.applyContractCondition ruleId (convert x) = .ok c') ↔ c.has (slot x) = false := by
  cases x with
  | extension value =>
    obtain ⟨l, hl, -, -⟩ := mapM_normalize ruleId h.2
    simp [convert, slot, Condition.applyContractCondition, Condition.has, hl, bind_eq_ok, setOnce_ok]
  | ageDays value | relativePath value =>
    simp [convert, slot, Condition.applyContractCondition, Condition.has, bind_eq_ok, setOnce_ok]
  | fileKind value =>
    cases value <;>
      simp [convert, slot, Condition.applyContractCondition, Condition.has, bind_eq_ok, setOnce_ok]
  | fileAge field operator value =>
    cases field <;> cases operator <;>
      simp [convert, slot, Condition.applyContractCondition, Condition.has, bind_eq_ok, setOnce_ok]
  | sizeBytes operator value | name operator value =>
    cases operator <;>
      simp [convert, slot, Condition.applyContractCondition, Condition.has, bind_eq_ok, setOnce_ok]

lemma apply_sets {ruleId : String} {c c' : Condition} {x : RuleCondition} (h : Stored x)
    (ha : c.applyContractCondition ruleId (convert x) = .ok c') : Sets c x c' := by
  cases x with
  | extension value =>
    obtain ⟨l, hl, hlen, hall⟩ := mapM_normalize ruleId h.2
    have hne : l ≠ [] := fun h0 => h.1 (List.length_eq_zero_iff.mp (by rw [← hlen, h0]; rfl))
    simp only [convert, Condition.applyContractCondition, hl, bind_eq_ok, setOnce_ok] at ha
    obtain ⟨_, ho, _, ⟨hnone, rfl⟩, ha⟩ := ha
    cases ho
    cases ha
    refine ⟨fun s => by cases s <;> simp [Condition.has, slot], ?_⟩
    simp only [Condition.passes_iff, hnone, BlankCondition, not_false_eq_true, and_true,
      Option.some.injEq, forall_eq', reduceCtorEq, false_imp_iff, implies_true, true_and]
    exact and_iff_right ⟨hne, hall⟩
  | ageDays value =>
    simp only [convert, Condition.applyContractCondition, bind_eq_ok, setOnce_ok] at ha
    obtain ⟨_, ⟨hnone, rfl⟩, ha⟩ := ha
    cases ha
    exact ⟨fun s => by cases s <;> simp [Condition.has, slot],
      by simp [Condition.passes_iff, BlankCondition]⟩
  | fileAge field operator value =>
    cases field <;> cases operator <;>
    · simp only [convert, Condition.applyContractCondition, bind_eq_ok, setOnce_ok] at ha
      obtain ⟨_, ⟨hnone, rfl⟩, ha⟩ := ha
      cases ha
      exact ⟨fun s => by cases s <;> simp [Condition.has, slot],
        by simp [Condition.passes_iff, BlankCondition]⟩
  | sizeBytes operator value =>
    cases operator <;>
    · simp only [convert, Condition.applyContractCondition, bind_eq_ok, setOnce_ok] at ha
      obtain ⟨_, ⟨hnone, rfl⟩, ha⟩ := ha
      cases ha
      exact ⟨fun s => by cases s <;> simp [Condition.has, slot],
        by simp [Condition.passes_iff, BlankCondition]⟩
  | relativePath value =>
    simp only [convert, Condition.applyContractCondition, bind_eq_ok, setOnce_ok] at ha
    obtain ⟨_, ⟨hnone, rfl⟩, ha⟩ := ha
    cases ha
    refine ⟨fun s => by cases s <;> simp [Condition.has, slot], ?_⟩
    simp [Condition.passes_iff, BlankCondition, hnone, validateRelativeDir_stored h, and_assoc]
  | fileKind value =>
    cases value <;>
    · simp only [convert, Condition.applyContractCondition, bind_eq_ok, setOnce_ok] at ha
      obtain ⟨_, ⟨hnone, rfl⟩, ha⟩ := ha
      cases ha
      exact ⟨fun s => by cases s <;> simp [Condition.has, slot],
        by simp [Condition.passes_iff, BlankCondition]⟩
  | name operator value =>
    cases operator <;>
    · simp only [convert, Condition.applyContractCondition, bind_eq_ok, setOnce_ok] at ha
      obtain ⟨_, ⟨hnone, rfl⟩, ha⟩ := ha
      cases ha
      refine ⟨fun s => by cases s <;> simp [Condition.has, slot], ?_⟩
      simp only [Condition.passes_iff, BlankCondition, hnone, Option.some.injEq, forall_eq',
        reduceCtorEq, false_imp_iff, implies_true, true_and, and_assoc, and_comm,
        and_left_comm]

lemma has_empty (s : Slot) : Condition.has {} s = false := by cases s <;> rfl

lemma passes_empty : Condition.Passes {} := by simp [Condition.passes_iff]

lemma isEmpty_of_has {c : Condition} {s : Slot} (h : c.has s = true) : c.isEmpty = false := by
  cases s <;>
  · simp only [Condition.has, Option.isSome_iff_exists] at h
    obtain ⟨a, ha⟩ := h
    simp [Condition.isEmpty, ha]

/-- **All conditions into one rule.** It works out if none is set twice. -/
lemma applyAll_ok_iff (ruleId : String) {l : List RuleCondition} {c : Condition}
    (h : ∀ x ∈ l, Stored x) : (∃ c', applyAll ruleId c (l.map convert) = .ok c') ↔
      (l.map slot).Nodup ∧ ∀ x ∈ l, c.has (slot x) = false := by
  induction l generalizing c with
  | nil => simp [applyAll]
  | cons x l ih =>
    obtain ⟨hx, hl⟩ := List.forall_mem_cons.mp h
    simp only [List.map_cons, applyAll, bind_eq_ok, List.nodup_cons, List.forall_mem_cons]
    constructor
    · rintro ⟨c'', c', hc', hall⟩
      obtain ⟨hnodup, hfree⟩ := (ih hl).mp ⟨c'', hall⟩
      have hsets := apply_sets hx hc'
      have hnew : ∀ y ∈ l, slot y ≠ slot x ∧ c.has (slot y) = false := by
        intro y hy
        have hno := hfree y hy
        rw [← Bool.not_eq_true, hsets.has, not_or, Bool.not_eq_true] at hno
        exact ⟨hno.2, hno.1⟩
      refine ⟨⟨fun hmem => ?_, hnodup⟩, (apply_ok_iff ruleId hx).mp ⟨c', hc'⟩, fun y hy => (hnew y hy).2⟩
      obtain ⟨y, hy, he⟩ := List.mem_map.mp hmem
      exact (hnew y hy).1 he
    · rintro ⟨⟨hmem, hnodup⟩, hfree, hrest⟩
      obtain ⟨c', hc'⟩ := (apply_ok_iff ruleId hx).mpr hfree
      have hsets := apply_sets hx hc'
      obtain ⟨c'', hc''⟩ := (ih (c := c') hl).mpr ⟨hnodup, fun y hy => by
        rw [← Bool.not_eq_true, hsets.has, not_or, Bool.not_eq_true]
        exact ⟨hrest y hy, fun he => hmem (he ▸ List.mem_map_of_mem hy)⟩⟩
      exact ⟨c'', c', hc', hc''⟩

/-- The rule that is made of them. -/
lemma applyAll_sets {ruleId : String} {l : List RuleCondition} {c c' : Condition}
    (h : ∀ x ∈ l, Stored x) (ha : applyAll ruleId c (l.map convert) = .ok c') :
    (∀ s, c'.has s = true ↔ c.has s = true ∨ s ∈ l.map slot) ∧
      (c'.Passes ↔ c.Passes ∧ ∀ x ∈ l, ¬ BlankCondition x) := by
  induction l generalizing c with
  | nil =>
    cases ha
    simp
  | cons x l ih =>
    obtain ⟨hx, hl⟩ := List.forall_mem_cons.mp h
    obtain ⟨c₁, hc₁, ha⟩ := bind_eq_ok.mp ha
    have hsets := apply_sets hx hc₁
    obtain ⟨hhas, hpasses⟩ := ih hl ha
    constructor
    · intro s
      rw [hhas, hsets.has, List.map_cons, List.mem_cons, or_assoc]
    · rw [hpasses, hsets.passes, List.forall_mem_cons, and_assoc]

/-- **Each condition into a rule of its own.** -/
lemma anyRules_ok (ruleId : String) (priority : ℤ) (action : Action) {l : List RuleCondition}
    (h : ∀ x ∈ l, Stored x) (index : ℕ) :
    ∃ rules, anyRules ruleId priority action index (l.map convert) = .ok rules ∧
      (∀ r ∈ rules, r.action = action ∧ ∃ x ∈ l, Sets {} x r.when) ∧
      (∀ x ∈ l, ∃ r ∈ rules, r.action = action ∧ Sets {} x r.when) ∧
      rules.map Rule.id = (List.range' (index + 1) l.length).map fun n =>
        ruleId ++ "-any-" ++ toString n := by
  induction l generalizing index with
  | nil => exact ⟨[], rfl, by simp, by simp, rfl⟩
  | cons x l ih =>
    obtain ⟨hx, hl⟩ := List.forall_mem_cons.mp h
    obtain ⟨c, hc⟩ := (apply_ok_iff (ruleId ++ "-any-" ++ toString (index + 1)) hx).mpr
      (has_empty (slot x))
    have hsets := apply_sets hx hc
    obtain ⟨rules, hrules, hmade, hall, hids⟩ := ih hl (index + 1)
    refine ⟨⟨ruleId ++ "-any-" ++ toString (index + 1), priority, c, action⟩ :: rules, ?_,
      List.forall_mem_cons.mpr ⟨⟨rfl, x, List.mem_cons_self, hsets⟩, fun r hr => ?_⟩,
      List.forall_mem_cons.mpr ⟨⟨_, List.mem_cons_self, rfl, hsets⟩, fun y hy => ?_⟩, ?_⟩
    · simp only [List.map_cons, anyRules, hc, hrules]
      rfl
    · obtain ⟨hact, y, hy, hyr⟩ := hmade r hr
      exact ⟨hact, y, List.mem_cons_of_mem x hy, hyr⟩
    · obtain ⟨r, hr, hyr⟩ := hall y hy
      exact ⟨r, List.mem_cons_of_mem _ hr, hyr⟩
    · simp only [List.map_cons, hids, List.length_cons, List.range'_succ]

lemma toString_inj {a b : ℕ} (h : toString a = toString b) : a = b := by
  have ha : ∀ n : ℕ, Nat.ofDigitChars 10 (toString n).toList 0 = n := fun n => by
    rw [Nat.toString_eq_repr, Nat.toList_repr]
    exact Nat.ofDigitChars_ten_toDigits
  rw [← ha a, h, ha b]

lemma append_ne_blank {a b : String} (h : trim a ≠ "") : trim (a ++ b) ≠ "" := by
  rw [Ne, trim_eq_empty, String.toList_append] at *
  exact fun hall => h fun c hc => hall c (List.mem_append_left _ hc)

/-- No directory of the action is refused unless it is blank. -/
lemma action_ok {a : RuleAction} (h : StoredAction a) :
    (∀ path, convertAction a = .move path ∨ convertAction a = .createDir path →
      validateRelativeDir path = .ok ()) ↔ ¬ BlankAction a := by
  cases a with
  | move path | createDir path =>
    simp [convertAction, BlankAction, validateRelativeDir_stored h]
  | quarantine | trash => simp [convertAction, BlankAction]

section Set

variable {ruleId : String} {priority : ℤ} {l : List RuleCondition} {a : RuleAction}

/-- The one rule of `ALL`. -/
lemma all_ok_iff (hid : trim ruleId ≠ "") (hne : l ≠ []) (hl : ∀ x ∈ l, Stored x)
    (ha : StoredAction a) :
    (∃ set, ContractRuleDefinition.intoRuleSet ⟨.all, l.map convert, convertAction a⟩ ruleId
      priority = .ok set) ↔
      (l.map slot).Nodup ∧ (∀ x ∈ l, ¬ BlankCondition x) ∧ ¬ BlankAction a := by
  simp only [ContractRuleDefinition.intoRuleSet, bind_eq_ok]
  constructor
  · rintro ⟨set, c, hc, rules, h, _, hv, -⟩
    cases h
    have hr := (RuleSet.validate_iff.mp hv).2.1 _ List.mem_cons_self
    rw [validate_ok_iff (a := convertAction a) rfl] at hr
    obtain ⟨-, -, hpasses, hact⟩ := hr
    exact ⟨((applyAll_ok_iff ruleId hl).mp ⟨c, hc⟩).1, ((applyAll_sets hl hc).2.mp hpasses).2,
      (action_ok ha).mp hact⟩
  · rintro ⟨hnodup, htexts, hact⟩
    obtain ⟨c, hc⟩ := (applyAll_ok_iff ruleId hl).mpr
      ⟨hnodup, fun x _ => has_empty (slot x)⟩
    obtain ⟨hhas, hpasses⟩ := applyAll_sets hl hc
    obtain ⟨x, xs, rfl⟩ := List.exists_cons_of_ne_nil hne
    have hset : c.has (slot x) = true := (hhas _).mpr (.inr List.mem_cons_self)
    refine ⟨_, c, hc, _, rfl, (), RuleSet.validate_iff.mpr ⟨rfl, ?_, by simp⟩, rfl⟩
    rw [List.forall_mem_singleton, validate_ok_iff (a := convertAction a) rfl]
    exact ⟨hid, isEmpty_of_has hset, hpasses.mpr ⟨passes_empty, htexts⟩, (action_ok ha).mpr hact⟩

/-- The rules of `ANY`. -/
lemma any_ok_iff (hid : trim ruleId ≠ "") (hne : l ≠ []) (hl : ∀ x ∈ l, Stored x)
    (ha : StoredAction a) :
    (∃ set, ContractRuleDefinition.intoRuleSet ⟨.any, l.map convert, convertAction a⟩ ruleId
      priority = .ok set) ↔ (∀ x ∈ l, ¬ BlankCondition x) ∧ ¬ BlankAction a := by
  obtain ⟨rules, hrules, hmade, hall, hids⟩ := anyRules_ok ruleId priority
    (convertAction a).intoAction hl 0
  have hvalid : ∀ {x : RuleCondition} {r : Rule}, r.action = (convertAction a).intoAction →
      Sets {} x r.when → trim r.id ≠ "" →
        (r.validate = .ok () ↔ ¬ BlankCondition x ∧ ¬ BlankAction a) := by
    intro x r hact hsets hrid
    rw [validate_ok_iff hact, hsets.passes, action_ok ha]
    have hset : r.when.has (slot x) = true := (hsets.has _).mpr (.inr rfl)
    simp [hrid, isEmpty_of_has hset, passes_empty]
  have hrid : ∀ r ∈ rules, trim r.id ≠ "" := by
    intro r hr
    have hmem : r.id ∈ rules.map Rule.id := List.mem_map_of_mem hr
    rw [hids] at hmem
    obtain ⟨n, -, hn⟩ := List.mem_map.mp hmem
    rw [← hn]
    exact append_ne_blank (append_ne_blank hid)
  have hnodup : (rules.map Rule.id).Nodup := by
    rw [hids]
    refine List.Nodup.map (fun m n h => toString_inj ?_) List.nodup_range'
    exact String.append_right_inj (ruleId ++ "-any-") |>.mp h
  simp only [ContractRuleDefinition.intoRuleSet, hrules, bind_eq_ok]
  constructor
  · rintro ⟨set, _, hr, _, hv, -⟩
    cases hr
    have hr := (RuleSet.validate_iff.mp hv).2.1
    have hx : ∀ x ∈ l, ¬ BlankCondition x ∧ ¬ BlankAction a := by
      intro x hx
      obtain ⟨r, hmem, hact, hsets⟩ := hall x hx
      exact (hvalid hact hsets (hrid r hmem)).mp (hr r hmem)
    obtain ⟨x, xs, rfl⟩ := List.exists_cons_of_ne_nil hne
    exact ⟨fun y hy => (hx y hy).1, (hx x List.mem_cons_self).2⟩
  · rintro ⟨htexts, hact⟩
    refine ⟨_, rules, rfl, (), RuleSet.validate_iff.mpr ⟨rfl, fun r hr => ?_, hnodup⟩, rfl⟩
    obtain ⟨hr', x, hx, hsets⟩ := hmade r hr
    exact (hvalid hr' hsets (hrid r hr)).mpr ⟨htexts x hx, hact⟩

end Set

/-- **Acceptance.** The engine takes a rule definition that the server has let through exactly
if it sets nothing twice and has no blank text. -/
theorem contract_accepted_iff (ruleId : String) (priority : ℤ) (input : Json) (d : RuleDefinition)
    (hid : trim ruleId ≠ "") (hd : Contracts.ruleDefinitionSchema input = some d) :
    (∃ set, RuleSet.fromContractDefinition ruleId priority d.toJson = .ok set) ↔ Clear d := by
  obtain ⟨hne, hl, ha⟩ := stored_of_schema hd
  simp only [RuleSet.fromContractDefinition, deserialize_stored hl, mapError_eq_ok]
  obtain ⟨mode, l, a⟩ := d
  cases mode with
  | all =>
    refine (all_ok_iff hid hne hl ha).trans ⟨fun h => ⟨fun _ => h.1, h.2.1, h.2.2⟩, fun h => ?_⟩
    exact ⟨h.once rfl, h.conditions, h.action⟩
  | any =>
    refine (any_ok_iff hid hne hl ha).trans ⟨fun h => ⟨nofun, h.1, h.2⟩, fun h => ?_⟩
    exact ⟨h.conditions, h.action⟩

/-- A definition with conditions on the name, as the server receives it. -/
def namesDefinition (first second : String × String) : Json :=
  .obj [("conditions", .arr [Contracts.condition "name" first.1 (.str first.2),
      Contracts.condition "name" second.1 (.str second.2)]),
    ("action", .obj [("type", .str "MOVE"), ("destinationTemplate", .str "Archive")])]

theorem contract_accepted_sample : ∃ set, RuleSet.fromContractDefinition "r" 0
    (RuleDefinition.toJson ⟨.all, [.name .startsWith "a", .name .endsWith "b"], .move "Archive"⟩) =
      .ok set :=
  (contract_accepted_iff "r" 0 (namesDefinition ("STARTS_WITH", " a") ("ENDS_WITH", "b"))
    ⟨.all, [.name .startsWith "a", .name .endsWith "b"], .move "Archive"⟩ (by decide +kernel)
      (by decide +kernel)).mpr
    ⟨fun _ => by decide, by decide +kernel, by decide +kernel⟩

/-- Two words that the name is to contain are one condition too many. -/
theorem not_contract_accepted : ¬ ∀ (ruleId : String) (priority : ℤ) (input : Json)
    (d : RuleDefinition), trim ruleId ≠ "" → Contracts.ruleDefinitionSchema input = some d →
      ∃ set, RuleSet.fromContractDefinition ruleId priority d.toJson = .ok set := by
  intro h
  obtain ⟨set, hset⟩ := h "r" 0 (namesDefinition ("CONTAINS", "a") ("CONTAINS", "b"))
    ⟨.all, [.name .contains "a", .name .contains "b"], .move "Archive"⟩ (by decide +kernel)
    (by decide +kernel)
  have hno : RuleSet.fromContractDefinition "r" 0
      (RuleDefinition.toJson ⟨.all, [.name .contains "a", .name .contains "b"], .move "Archive"⟩) =
        .error (.rule (.invalidCondition "r" "name_contains" "duplicate condition is ambiguous")) := by
    rfl
  rw [hno] at hset
  cases hset

end MouseKeeper.FileEngine
