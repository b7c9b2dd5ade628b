import Std.Data.ExtTreeMap
import Mathlib.Data.Int.Notation
import Mathlib.Tactic.Common
import MouseKeeper.FileEngine.AutoApproval

/-!
The store of the policies that approve proposals on their own.

A patch is assigned to the policy of a root one field after the other, each with its own check,
and the row is written once the lock on the policies has been given back. What a patch that is
refused has assigned up to then stays.
-/

namespace MouseKeeper.Desktop.PolicyStore

open FileEngine (ProposalAction AutoApprovalPolicy)

/-! ### Policies -/

@[ext]
structure AutoApprovalPolicyRecord where
  rootId : String
  enabled : Bool
  allowedActions : List ProposalAction
  maxFilesPerRun : ℕ
  expiresUnixMs : Option ℤ
  updatedUnixMs : ℤ
  allowed : allowedActions ≠ []
  pos : 0 < maxFilesPerRun
  deriving DecidableEq

structure AutoApprovalPolicyPatch where
  enabled : Option Bool
  allowedActions : Option (List ProposalAction)
  maxFilesPerRun : Option ℕ
  expiresUnixMs : Option ℤ

def defaultForRoot (rootId : String) (now : ℤ) : AutoApprovalPolicyRecord :=
  ⟨rootId, false, [.trash], 20, none, now, List.cons_ne_nil _ _, by decide⟩

def AutoApprovalPolicyRecord.isExpired (policy : AutoApprovalPolicyRecord) (now : ℤ) : Bool :=
  policy.expiresUnixMs.any (· ≤ now)

def AutoApprovalPolicyRecord.toEnginePolicy (policy : AutoApprovalPolicyRecord) (now : ℤ) :
    AutoApprovalPolicy :=
  ⟨policy.enabled && !policy.isExpired now, policy.allowedActions, policy.maxFilesPerRun⟩

/-! ### Rows -/

def I64_MAX : ℕ := 2 ^ 63 - 1

/-- A row of `auto_approval_policies`, apart from its key. -/
structure PolicyRow where
  enabled : ℤ
  allowedActions : List ProposalAction
  maxFilesPerRun : ℤ
  expiresUnixMs : Option ℤ
  updatedUnixMs : ℤ

def AutoApprovalPolicyRecord.row (policy : AutoApprovalPolicyRecord) : PolicyRow :=
  ⟨if policy.enabled then 1 else 0, policy.allowedActions, min policy.maxFilesPerRun I64_MAX,
    policy.expiresUnixMs, policy.updatedUnixMs⟩

/-- What `read_policies` makes of a row. -/
def PolicyRow.read (rootId : String) (row : PolicyRow) : Except String AutoApprovalPolicyRecord :=
  if ha : row.allowedActions = [] then
    .error ("auto approval policy has no allowed actions: " ++ rootId)
  else if hm : row.maxFilesPerRun ≤ 0 then
    .error ("auto approval max_files_per_run must be positive: " ++ rootId)
  else
    .ok ⟨rootId, row.enabled ≠ 0, row.allowedActions, row.maxFilesPerRun.toNat, row.expiresUnixMs,
      row.updatedUnixMs, ha, by omega⟩

/-! ### The store -/

abbrev Policies := Std.ExtTreeMap String AutoApprovalPolicyRecord

abbrev PolicyRows := Std.ExtTreeMap String PolicyRow

/-- The policies, the database once it has been loaded, and the locks on which a thread has
panicked. -/
structure AutoApprovalStore where
  policies : Policies
  pool : Option PolicyRows
  policiesPoisoned : Bool
  poolPoisoned : Bool
  keyed : ∀ (k : String) (policy : AutoApprovalPolicyRecord), policies[k]? = some policy →
    policy.rootId = k

/-- What `get_or_default` answers, and what a patch begins with. -/
def AutoApprovalStore.policyOf (s : AutoApprovalStore) (rootId : String) (now : ℤ) :
    AutoApprovalPolicyRecord :=
  s.policies[rootId]?.getD (defaultForRoot rootId now)

def assignActions (policy : AutoApprovalPolicyRecord) :
    Option (List ProposalAction) → Except String AutoApprovalPolicyRecord
  | none => .ok policy
  | some actions =>
    if h : actions = [] then .error "auto approval policy must allow at least one action"
    else .ok { policy with allowedActions := actions, allowed := h }

def assignLimit (policy : AutoApprovalPolicyRecord) :
    Option ℕ → Except String AutoApprovalPolicyRecord
  | none => .ok policy
  | some limit =>
    if h : limit = 0 then .error "auto approval max_files_per_run must be greater than zero"
    else .ok { policy with maxFilesPerRun := limit, pos := Nat.pos_of_ne_zero h }

/-- What the patch leaves of the policy, and the error that it ends with. -/
def assign (policy : AutoApprovalPolicyRecord) (patch : AutoApprovalPolicyPatch) (now : ℤ) :
    AutoApprovalPolicyRecord × Option String :=
  let policy := { policy with enabled := patch.enabled.getD policy.enabled }
  match assignActions policy patch.allowedActions with
  | .error error => (policy, some error)
  | .ok policy =>
    match assignLimit policy patch.maxFilesPerRun with
    | .error error => (policy, some error)
    | .ok policy =>
      ({ policy with
          expiresUnixMs := patch.expiresUnixMs.or policy.expiresUnixMs
          updatedUnixMs := now }, none)

/-- The entry of the root gets the policy. -/
def AutoApprovalStore.put (s : AutoApprovalStore) (policy : AutoApprovalPolicyRecord) :
    AutoApprovalStore :=
  { s with
    policies := s.policies.insert policy.rootId policy
    keyed := fun k p h => by
      rw [Std.ExtTreeMap.getElem?_insert] at h
      split at h
      · rename_i heq
        rw [← Option.some.inj h]
        simpa using heq
      · exact s.keyed k p h }

/-- `write` is the error of the database, if there is one. -/
def AutoApprovalStore.persist (s : AutoApprovalStore) (policy : AutoApprovalPolicyRecord)
    (write : Option String) : Except String AutoApprovalStore :=
  if s.poolPoisoned then .error "auto approval pool lock poisoned"
  else
    match s.pool, write with
    | none, _ => .ok s
    | some _, some error => .error ("cannot persist auto approval policy: " ++ error)
    | some rows, none => .ok { s with pool := some (rows.insert policy.rootId policy.row) }

def AutoApprovalStore.patch (s : AutoApprovalStore) (rootId : String)
    (patch : AutoApprovalPolicyPatch) (now : ℤ) (write : Option String) :
    Except String AutoApprovalPolicyRecord × AutoApprovalStore :=
  if s.policiesPoisoned then (.error "auto approval store lock poisoned", s)
  else
    match assign (s.policyOf rootId now) patch now with
    | (policy, some error) => (.error error, s.put policy)
    | (updated, none) =>
      match (s.put updated).persist updated write with
      | .error error => (.error error, s.put updated)
      | .ok stored => (.ok updated, stored)

/-! ### What must hold -/

/-- Every root has the policy that it had, in memory and in the database. -/
def Same (s s' : AutoApprovalStore) (now : ℤ) : Prop :=
  (∀ r, s'.policyOf r now = s.policyOf r now) ∧ s'.pool = s.pool

/-- Memory and the database, if there is one, have the policy. -/
def Agree (s : AutoApprovalStore) (rootId : String) (policy : AutoApprovalPolicyRecord) : Prop :=
  s.policies[rootId]? = some policy ∧
    ∀ rows ∈ s.pool, ∃ row, rows[rootId]? = some row ∧ row.read rootId = .ok policy

/-- A patch that is refused changes nothing, and one that is not is stored. -/
def AllOrNothing (s : AutoApprovalStore) (rootId : String) (patch : AutoApprovalPolicyPatch)
    (now : ℤ) (write : Option String) : Prop :=
  match s.patch rootId patch now write with
  | (.error _, s') => Same s s' now
  | (.ok policy, s') => Agree s' rootId policy

/-! ### When it does -/

def Keeps {α : Type} (field : Option α) (value : α) : Prop := ∀ x ∈ field, x = value

/-- The row cannot be written. -/
def Fails (s : AutoApprovalStore) (write : Option String) : Prop :=
  s.poolPoisoned = true ∨ s.pool.isSome = true ∧ write.isSome = true

instance (s : AutoApprovalStore) (write : Option String) : Decidable (Fails s write) := by
  unfold Fails
  infer_instance

/-- The fields before the one that is refused, or all if the row cannot be written, have the values
that the policy has. A limit that is written is an `i64`. -/
def Harmless (s : AutoApprovalStore) (rootId : String) (patch : AutoApprovalPolicyPatch) (now : ℤ)
    (write : Option String) : Prop :=
  let policy := s.policyOf rootId now
  if s.policiesPoisoned then True
  else if patch.allowedActions = some [] then Keeps patch.enabled policy.enabled
  else if patch.maxFilesPerRun = some 0 then
    Keeps patch.enabled policy.enabled ∧ Keeps patch.allowedActions policy.allowedActions
  else if Fails s write then
    Keeps patch.enabled policy.enabled ∧ Keeps patch.allowedActions policy.allowedActions ∧
      Keeps patch.maxFilesPerRun policy.maxFilesPerRun ∧
      (∀ t ∈ patch.expiresUnixMs, policy.expiresUnixMs = some t) ∧ policy.updatedUnixMs = now
  else s.pool = none ∨ patch.maxFilesPerRun.getD policy.maxFilesPerRun ≤ I64_MAX


variable {s s' : AutoApprovalStore} {rootId r : String} {patch : AutoApprovalPolicyPatch} {now : ℤ}
  {write : Option String} {policy : AutoApprovalPolicyRecord}

/-! ### The entry of a root -/

lemma rootId_policyOf : (s.policyOf rootId now).rootId = rootId := by
  unfold AutoApprovalStore.policyOf
  cases h : s.policies[rootId]? with
  | none => rfl
  | some policy => exact s.keyed rootId policy h

@[simp] lemma put_pool : (s.put policy).pool = s.pool := rfl

@[simp] lemma put_poolPoisoned : (s.put policy).poolPoisoned = s.poolPoisoned := rfl

lemma put_get : (s.put policy).policies[policy.rootId]? = some policy := by
  simp [AutoApprovalStore.put]

lemma put_policyOf :
    (s.put policy).policyOf r now = if policy.rootId = r then policy else s.policyOf r now := by
  unfold AutoApprovalStore.policyOf AutoApprovalStore.put
  rw [Std.ExtTreeMap.getElem?_insert]
  by_cases h : policy.rootId = r
  · simp [h]
  · simp [h]

/-- An entry that is put changes nothing exactly if it is the policy of its root. -/
lemma same_put_iff : Same s (s.put policy) now ↔ policy = s.policyOf policy.rootId now := by
  constructor
  · rintro ⟨h, -⟩
    have h := h policy.rootId
    rwa [put_policyOf, if_pos rfl] at h
  · intro h
    refine ⟨fun r => ?_, rfl⟩
    rw [put_policyOf]
    split
    · rename_i hr
      rw [← hr, ← h]
    · rfl

/-- A row is read back as what was written, if the limit fits. -/
lemma read_row_iff : policy.row.read policy.rootId = .ok policy ↔
    policy.maxFilesPerRun ≤ I64_MAX := by
  have hpos := policy.pos
  have hmin : policy.row.maxFilesPerRun.toNat = min policy.maxFilesPerRun I64_MAX := by
    dsimp only [AutoApprovalPolicyRecord.row]
    omega
  have hrow : ¬ policy.row.maxFilesPerRun ≤ 0 := by
    have hmax : 0 < I64_MAX := by decide
    omega
  unfold PolicyRow.read
  rw [dif_neg (show policy.row.allowedActions ≠ [] from policy.allowed), dif_neg hrow,
    Except.ok.injEq]
  constructor
  · intro h
    have hlimit := congrArg (·.maxFilesPerRun) h
    dsimp only at hlimit
    omega
  · intro h
    ext : 1
    case maxFilesPerRun =>
      dsimp only
      omega
    case enabled => cases he : policy.enabled <;> simp [AutoApprovalPolicyRecord.row, he]
    all_goals rfl

lemma keeps_iff {α : Type} {field : Option α} {value : α} :
    Keeps field value ↔ field.getD value = value := by
  cases field with
  | none => simp [Keeps]
  | some x => simp [Keeps]

lemma or_eq_iff {α : Type} {x y : Option α} : x.or y = y ↔ ∀ t ∈ x, y = some t := by
  cases x with
  | none => simp
  | some t => simp [eq_comm]

/-! ### What a patch assigns -/

/-- The fields up to the actions are those of the patch. -/
structure Assigned (policy policy' : AutoApprovalPolicyRecord) (patch : AutoApprovalPolicyPatch) :
    Prop where
  rootId : policy'.rootId = policy.rootId
  enabled : policy'.enabled = patch.enabled.getD policy.enabled
  allowedActions : policy'.allowedActions = patch.allowedActions.getD policy.allowedActions

lemma Assigned.eq_iff {policy' : AutoApprovalPolicyRecord} (h : Assigned policy policy' patch) :
    policy' = policy ↔ Keeps patch.enabled policy.enabled ∧
      Keeps patch.allowedActions policy.allowedActions ∧
      policy'.maxFilesPerRun = policy.maxFilesPerRun ∧
      policy'.expiresUnixMs = policy.expiresUnixMs ∧
      policy'.updatedUnixMs = policy.updatedUnixMs := by
  rw [AutoApprovalPolicyRecord.ext_iff, keeps_iff, keeps_iff, ← h.enabled, ← h.allowedActions,
    and_iff_right h.rootId]

lemma assign_empty (policy : AutoApprovalPolicyRecord) (now : ℤ)
    (h : patch.allowedActions = some []) : ∃ error, assign policy patch now =
      ({ policy with enabled := patch.enabled.getD policy.enabled }, some error) := by
  refine ⟨"auto approval policy must allow at least one action", ?_⟩
  simp [assign, h, assignActions]

lemma assignActions_ok (policy : AutoApprovalPolicyRecord)
    (h : patch.allowedActions ≠ some []) : ∃ policy',
      assignActions { policy with enabled := patch.enabled.getD policy.enabled }
        patch.allowedActions = .ok policy' ∧ Assigned policy policy' patch ∧
      policy'.maxFilesPerRun = policy.maxFilesPerRun ∧
      policy'.expiresUnixMs = policy.expiresUnixMs ∧
      policy'.updatedUnixMs = policy.updatedUnixMs := by
  cases hactions : patch.allowedActions with
  | none => exact ⟨_, rfl, ⟨rfl, rfl, by rw [hactions]; rfl⟩, rfl, rfl, rfl⟩
  | some actions =>
    have hne : actions ≠ [] := fun heq => h (heq ▸ hactions)
    exact ⟨_, dif_neg hne, ⟨rfl, rfl, by rw [hactions]; rfl⟩, rfl, rfl, rfl⟩

lemma assign_zero (policy : AutoApprovalPolicyRecord) (now : ℤ) (h : patch.allowedActions ≠ some [])
    (hzero : patch.maxFilesPerRun = some 0) :
    ∃ policy' error, assign policy patch now = (policy', some error) ∧
      Assigned policy policy' patch ∧ policy'.maxFilesPerRun = policy.maxFilesPerRun ∧
      policy'.expiresUnixMs = policy.expiresUnixMs ∧
      policy'.updatedUnixMs = policy.updatedUnixMs := by
  obtain ⟨policy', hok, hrest⟩ := assignActions_ok policy h
  refine ⟨policy', "auto approval max_files_per_run must be greater than zero", ?_, hrest⟩
  simp [assign, hok, hzero, assignLimit]

lemma assign_ok (policy : AutoApprovalPolicyRecord) (now : ℤ) (h : patch.allowedActions ≠ some [])
    (hzero : patch.maxFilesPerRun ≠ some 0) :
    ∃ policy', assign policy patch now = (policy', none) ∧ Assigned policy policy' patch ∧
      policy'.maxFilesPerRun = patch.maxFilesPerRun.getD policy.maxFilesPerRun ∧
      policy'.expiresUnixMs = patch.expiresUnixMs.or policy.expiresUnixMs ∧
      policy'.updatedUnixMs = now := by
  obtain ⟨policy', hok, ⟨hroot, henabled, hactions⟩, hlimit, hexpires, -⟩ :=
    assignActions_ok policy h
  unfold assign
  dsimp only
  rw [hok]
  cases hmax : patch.maxFilesPerRun with
  | none => exact ⟨_, rfl, ⟨hroot, henabled, hactions⟩, hlimit, by rw [hexpires], rfl⟩
  | some limit =>
    have hne : limit ≠ 0 := fun heq => hzero (heq ▸ hmax)
    simp only [assignLimit, dif_neg hne]
    exact ⟨_, rfl, ⟨hroot, henabled, hactions⟩, rfl, by rw [hexpires], rfl⟩

/-! ### What is written -/

lemma persist_error (policy : AutoApprovalPolicyRecord) (h : Fails s write) :
    ∃ error, (s.put policy).persist policy write = .error error := by
  unfold AutoApprovalStore.persist
  rw [put_poolPoisoned, put_pool]
  by_cases hp : s.poolPoisoned = true
  · exact ⟨_, if_pos hp⟩
  · obtain ⟨hpool, hwrite⟩ := h.resolve_left hp
    obtain ⟨rows, hrows⟩ := Option.isSome_iff_exists.mp hpool
    obtain ⟨error, rfl⟩ := Option.isSome_iff_exists.mp hwrite
    rw [if_neg hp, hrows]
    exact ⟨_, rfl⟩

/-- What is stored agrees with memory, unless the limit does not fit. -/
lemma persist_ok (policy : AutoApprovalPolicyRecord) (h : ¬ Fails s write) :
    ∃ s', (s.put policy).persist policy write = .ok s' ∧
      (Agree s' policy.rootId policy ↔ s.pool = none ∨ policy.maxFilesPerRun ≤ I64_MAX) := by
  obtain ⟨hp, hwrite⟩ := not_or.mp h
  unfold AutoApprovalStore.persist
  rw [put_poolPoisoned, put_pool, if_neg hp]
  cases hpool : s.pool with
  | none =>
    refine ⟨s.put policy, rfl, iff_of_true ⟨put_get, ?_⟩ (.inl rfl)⟩
    rw [put_pool, hpool]
    nofun
  | some rows =>
    have hnone : write = none := by
      rw [hpool, Option.isSome_some, eq_self_iff_true, true_and] at hwrite
      simpa using hwrite
    rw [hnone]
    refine ⟨_, rfl, ?_⟩
    rw [← read_row_iff]
    constructor
    · rintro ⟨-, h⟩
      obtain ⟨row, hrow, hread⟩ := h _ rfl
      rw [Std.ExtTreeMap.getElem?_insert_self] at hrow
      rw [← Option.some.inj hrow] at hread
      exact .inr hread
    · rintro (h | h)
      · cases h
      · refine ⟨put_get, fun rows' hrows => ⟨policy.row, ?_, h⟩⟩
        rw [← Option.some.inj hrows]
        exact Std.ExtTreeMap.getElem?_insert_self

/-! ### All or nothing -/

/-- **A patch is all or nothing**, exactly if it is harmless. -/
theorem all_or_nothing_iff (s : AutoApprovalStore) (rootId : String)
    (patch : AutoApprovalPolicyPatch) (now : ℤ) (write : Option String) :
    AllOrNothing s rootId patch now write ↔ Harmless s rootId patch now write := by
  unfold AllOrNothing AutoApprovalStore.patch Harmless
  dsimp only
  by_cases hp : s.policiesPoisoned = true
  · simp only [if_pos hp, iff_true]
    exact ⟨fun _ => rfl, rfl⟩
  rw [if_neg hp, if_neg hp]
  have hroot : (s.policyOf rootId now).rootId = rootId := rootId_policyOf
  by_cases hactions : patch.allowedActions = some []
  · obtain ⟨error, hassign⟩ := assign_empty (s.policyOf rootId now) now hactions
    rw [if_pos hactions, hassign]
    dsimp only
    rw [same_put_iff, hroot, AutoApprovalPolicyRecord.ext_iff, keeps_iff]
    simp [hroot]
  rw [if_neg hactions]
  by_cases hzero : patch.maxFilesPerRun = some 0
  · obtain ⟨policy', error, hassign, ha, hlimit, hexpires, hupdated⟩ :=
      assign_zero (s.policyOf rootId now) now hactions hzero
    rw [if_pos hzero, hassign]
    dsimp only
    rw [same_put_iff, ha.rootId, hroot, ha.eq_iff]
    simp only [hlimit, hexpires, hupdated, and_true]
  rw [if_neg hzero]
  obtain ⟨policy', hassign, ha, hlimit, hexpires, hupdated⟩ :=
    assign_ok (s.policyOf rootId now) now hactions hzero
  rw [hassign]
  dsimp only
  have hroot' := ha.rootId.trans hroot
  by_cases hfails : Fails s write
  · obtain ⟨error, herror⟩ := persist_error policy' hfails
    rw [if_pos hfails, herror]
    dsimp only
    rw [same_put_iff, hroot', ha.eq_iff, hlimit, hexpires, hupdated, ← keeps_iff, or_eq_iff,
      eq_comm (a := now)]
  · obtain ⟨stored, hstored, hagree⟩ := persist_ok policy' hfails
    rw [if_neg hfails, hstored]
    dsimp only
    rw [← hlimit, ← hagree, hroot']

/-- A patch that is harmless and refused leaves the approval of every root as it is. -/
lemma toEnginePolicy_of_harmless {error : String} (h : Harmless s rootId patch now write)
    (hpatch : s.patch rootId patch now write = (.error error, s')) (r : String) :
    (s'.policyOf r now).toEnginePolicy now = (s.policyOf r now).toEnginePolicy now := by
  have hsame := (all_or_nothing_iff s rootId patch now write).mpr h
  rw [AllOrNothing, hpatch] at hsame
  rw [hsame.1 r]

/-! ### A sample -/

def noPolicies : AutoApprovalStore :=
  ⟨∅, some ∅, false, false, fun _ _ h => by simp at h⟩

/-- Approval is switched on, without an action that it is for. -/
def enabledWithoutActions : AutoApprovalPolicyPatch := ⟨some true, some [], none, none⟩

/-- The patch is refused, and approval is on. -/
theorem not_all_or_nothing : ¬ ∀ (s : AutoApprovalStore) (rootId : String)
    (patch : AutoApprovalPolicyPatch) (now : ℤ) (write : Option String),
    AllOrNothing s rootId patch now write := by
  intro h
  have hsame := h noPolicies "root-1" enabledWithoutActions 0 none
  obtain ⟨error, hassign⟩ :=
    assign_empty (noPolicies.policyOf "root-1" 0) 0 (rfl : enabledWithoutActions.allowedActions = _)
  unfold AllOrNothing AutoApprovalStore.patch at hsame
  rw [if_neg (show ¬ noPolicies.policiesPoisoned = true from Bool.false_ne_true), hassign] at hsame
  have hpolicy := hsame.1 "root-1"
  rw [put_policyOf, if_pos rootId_policyOf] at hpolicy
  have henabled := congrArg (·.enabled) hpolicy
  simp [enabledWithoutActions, AutoApprovalStore.policyOf, noPolicies, defaultForRoot] at henabled

end MouseKeeper.Desktop.PolicyStore
