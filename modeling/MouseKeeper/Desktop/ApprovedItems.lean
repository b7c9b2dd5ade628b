import MouseKeeper.Desktop.Submissions
import Mathlib.Data.List.Forall2
import Mathlib.Data.List.Sort

/-!
From a proposal to an item of a submission, and back from the approved item.

The server keeps the precondition of an item as JSON, so its numbers are read and written as
JavaScript does. The rows of a proposal come back in any order.
-/

namespace MouseKeeper.Desktop.Builders

open MouseKeeper.Contracts (CreateProposal Json ProposalItem)
open MouseKeeper.FileEngine Posix

/-! ### Numbers of JavaScript -/

/-- The double next to a natural number, a tie going to the even one. -/
def toDouble (n : ℕ) : ℕ :=
  if n < 2 ^ 53 then n
  else
    let unit := 2 ^ (n.log2 - 52)
    let q := n / unit
    let r := n % unit
    (if unit < 2 * r ∨ unit = 2 * r ∧ q % 2 = 1 then q + 1 else q) * unit

/-- The multiple of the unit next to the double that is read as it. -/
def nearestMultiple (double unit : ℕ) : Option ℕ :=
  let low := double / unit * unit
  let high := low + unit
  if toDouble low = double ∧ (double - low ≤ high - double ∨ toDouble high ≠ double) then some low
  else if toDouble high = double then some high
  else none

/-- As few digits as possible before the zeros, of which there are at most so many. -/
def shortestDigits (double : ℕ) : ℕ → ℕ
  | 0 => double
  | zeros + 1 => (nearestMultiple double (10 ^ (zeros + 1))).getD (shortestDigits double zeros)

/-- What becomes of a number in `JSON.parse` and `JSON.stringify`. -/
def jsNumber (n : ℕ) : ℕ := if n < 2 ^ 53 then n else shortestDigits (toDouble n) 21

def storedValue : Json → Json
  | .num q => if q.den = 1 ∧ 0 ≤ q.num then .ofNat (jsNumber q.num.toNat) else .num q
  | j => j

/-- The precondition as it comes back, a flat object. -/
def storedPrecondition : Json → Json
  | .obj fields => .obj (fields.map fun f => (f.1, storedValue f.2))
  | j => storedValue j

/-- PostgreSQL keeps no text with a null character in JSON. -/
def isKept : Json → Bool
  | .obj fields => fields.all fun f => f.2.asStr.all fun s => '\x00' ∉ s.toList
  | _ => true

def stored (item : ProposalItem) : Option ProposalItem :=
  if isKept item.precondition then
    some { item with precondition := storedPrecondition item.precondition }
  else none

/-- The rows of a proposal that the server takes. -/
def storedRows (proposal : CreateProposal) : Option (List ProposalItem) :=
  if Contracts.createProposalSchema proposal then proposal.items.mapM stored else none

/-! ### Reading an approved item -/

def asU64 : Json → Option ℕ
  | .num q => if q.den = 1 ∧ 0 ≤ q.num ∧ q.num.toNat < 2 ^ 64 then some q.num.toNat else none
  | _ => none

/-- `value.get(key)`. -/
def getKey (value : Json) (key : String) : Option Json := value.asObj.bind fun fields => fields.get key

def preconditionSnapshot (value : Json) : ℕ × Option ℕ × Option String :=
  (((getKey value "sourceSizeBytes").bind asU64).getD 0,
    (getKey value "sourceModifiedUnixMs").bind asU64,
    ((getKey value "sourceFileId").bind Json.asStr).filter (· ≠ ""))

def readmeWriteContent (value : Json) : Except String String :=
  match ((getKey value "content").or (getKey value "readmeContent")).bind Json.asStr with
  | none => .error "README_WRITE precondition is missing approved content"
  | some content =>
    if 200000 < content.utf8ByteSize then .error "README_WRITE content exceeds 200000 bytes"
    else .ok content

def actionOfType : Contracts.ProposalActionType → ProposalAction
  | .move => .move
  | .quarantine => .trash
  | .createDir => .createDir
  | .createFile => .createFile
  | .readmeWrite => .readmeWrite

def orMissing (o : Option String) (message : String) : Except String String :=
  match o with
  | some s => .ok s
  | none => .error message

def missingSource (item : ProposalItem) : String :=
  "proposal item " ++ toString item.itemOrder ++ " is missing a source path"

def missingDestination (item : ProposalItem) : String :=
  "proposal item " ++ toString item.itemOrder ++ " is missing a destination path"

def localProposalFromItem (item : ProposalItem) : Except String Proposal := do
  let action := actionOfType item.actionType
  let src ← match action with
    | .move | .trash => orMissing item.sourceRelativePath (missingSource item)
    | .createDir | .createFile => .ok ""
    | .readmeWrite => .ok "README.md"
  let dst ← match action with
    | .move | .createDir | .createFile =>
      orMissing item.destinationRelativePath (missingDestination item)
    | .trash => .ok TRASH_DIR
    | .readmeWrite => .ok "README.md"
  let status ← match item.conflictState with
    | .none => .ok ProposalStatus.ready
    | .nameConflict => .ok .destinationExists
    | .unsupported => .error "delegated conflict state UNSUPPORTED is not supported yet"
  let (size, modified, fileId) := preconditionSnapshot item.precondition
  let content ← if action = .readmeWrite then some <$> readmeWriteContent item.precondition
    else .ok none
  .ok {
    proposalId := proposalId action src dst
    action := action
    fromPath := src
    toPath := dst
    content := content
    sourceSizeBytes := size
    sourceModifiedUnixMs := modified
    sourceFileId := fileId
    reason := item.reasonCode
    status := status }

def localProposals : List ProposalItem → Except String (List Proposal)
  | [] => .ok []
  | item :: items => do
    let p ← localProposalFromItem item
    let ps ← localProposals items
    .ok (p :: ps)

def buildLocalProposalReport (t : Tree) (root : RawPath) (items : List ProposalItem) :
    Except String ProposalReport :=
  if items = [] then .error "approved proposal has no items"
  else do
    let g ← (PathGuard.new t root).mapError PathGuardError.toText
    let proposals ← localProposals (items.mergeSort fun a b => a.itemOrder ≤ b.itemOrder)
    .ok ⟨g.root.display, proposals⟩

/-! ### What survives -/

/-- What the two proposals have to have in common. -/
structure Same (p p' : Proposal) : Prop where
  action : p'.action = p.action
  fromPath : p'.fromPath = p.fromPath
  toPath : p'.toPath = p.toPath
  content : p'.content = p.content
  sourceSizeBytes : p'.sourceSizeBytes = p.sourceSizeBytes
  sourceModifiedUnixMs : p'.sourceModifiedUnixMs = p.sourceModifiedUnixMs
  sourceFileId : p'.sourceFileId = p.sourceFileId
  status : p'.status = p.status

/-- A number that comes back from JavaScript as it was, and as one of 64 bits. -/
def Survives (n : ℕ) : Prop := n < 2 ^ 64 ∧ jsNumber n = n

instance (n : ℕ) : Decidable (Survives n) := inferInstanceAs (Decidable (_ ∧ _))

/-- The paths and the content that an action leaves to its item. -/
def Fixed (p : Proposal) : Prop :=
  match p.action with
  | .move => p.content = none
  | .trash => p.toPath = TRASH_DIR ∧ p.content = none
  | .createDir | .createFile => p.fromPath = "" ∧ p.content = none
  | .readmeWrite => False

structure Kept (p : Proposal) : Prop where
  fixed : Fixed p
  size : Survives p.sourceSizeBytes
  mtime : ∀ n ∈ p.sourceModifiedUnixMs, Survives n
  fileId : p.sourceFileId ≠ some ""

/-- The approved batch is rebuilt from its rows, in whatever order they come. -/
def Rebuilt (t : Tree) (root : RawPath) (approved : List Proposal) (rows : List ProposalItem) :
    Prop :=
  ∀ items, items.Perm rows → ∃ report, buildLocalProposalReport t root items = .ok report ∧
    List.Forall₂ Same approved report.proposals

lemma survives_of_safe {n : ℕ} (h : n ≤ Json.MAX_SAFE_INTEGER) : Survives n := by
  have hn : n < 2 ^ 53 := Nat.lt_of_le_pred (by decide) h
  exact ⟨hn.trans (by decide), if_pos hn⟩

/-! ### The precondition -/

lemma storedValue_ofNat (n : ℕ) : storedValue (.ofNat n) = .ofNat (jsNumber n) := by
  have hnat : ((n : Rat)).den = 1 ∧ 0 ≤ (n : Rat).num := ⟨rfl, Int.natCast_nonneg n⟩
  rw [Json.ofNat, storedValue, if_pos hnat]
  rfl

lemma asU64_ofNat (n : ℕ) : asU64 (.ofNat n) = if n < 2 ^ 64 then some n else none := by
  have hnat : ((n : Rat)).den = 1 ∧ 0 ≤ (n : Rat).num := ⟨rfl, Int.natCast_nonneg n⟩
  have hnum : (n : Rat).num.toNat = n := rfl
  simp only [Json.ofNat, asU64, hnat, hnum, true_and]

lemma asU64_eq_iff {n : ℕ} : asU64 (storedValue (.ofNat n)) = some n ↔ Survives n := by
  rw [storedValue_ofNat, asU64_ofNat, Option.ite_none_right_eq_some, Option.some.injEq]
  constructor
  · rintro ⟨hlt, heq⟩
    exact ⟨heq ▸ hlt, heq⟩
  · rintro ⟨hlt, heq⟩
    exact ⟨heq.symm ▸ hlt, heq⟩

lemma survives_zero : Survives 0 := survives_of_safe (Nat.zero_le _)

lemma asU64_getD_iff {n : ℕ} : (asU64 (storedValue (.ofNat n))).getD 0 = n ↔ Survives n := by
  rw [← asU64_eq_iff]
  constructor
  · intro h
    cases hu : asU64 (storedValue (.ofNat n)) with
    | some m => rw [← h, hu, Option.getD_some]
    | none =>
      rw [hu, Option.getD_none] at h
      subst h
      have hzero := asU64_eq_iff.mpr survives_zero
      rw [hu] at hzero
      cases hzero
  · intro h
    rw [h, Option.getD_some]

lemma asU64_mtime_iff {o : Option ℕ} :
    asU64 (storedValue (o.elim .null .ofNat)) = o ↔ ∀ n ∈ o, Survives n := by
  cases o with
  | none => exact ⟨fun _ => nofun, fun _ => rfl⟩
  | some n =>
    rw [Option.elim_some, asU64_eq_iff]
    exact ⟨fun h m hm => Option.some.inj hm ▸ h, fun h => h n rfl⟩

lemma fileId_iff {o : Option String} : o.filter (· ≠ "") = o ↔ o ≠ some "" := by
  cases o with
  | none => exact ⟨fun _ => nofun, fun _ => rfl⟩
  | some id =>
    rw [Option.filter_eq_some_iff]
    simp

/-! ### One item -/

lemma storedPrecondition_precondition (now : ℕ) (p : Proposal) :
    storedPrecondition (precondition now p) =
      .obj ([("proposalId", .str p.proposalId),
        ("sourceSizeBytes", storedValue (.ofNat p.sourceSizeBytes)),
        ("sourceModifiedUnixMs", storedValue (p.sourceModifiedUnixMs.elim .null .ofNat)),
        ("checkedAtUnixMs", storedValue (.ofNat now))] ++
          (p.sourceFileId.map fun id => ("sourceFileId", Json.str id)).toList) := by
  have hstr (s : String) : storedValue (.str s) = .str s := rfl
  cases h : p.sourceFileId <;> simp [precondition, storedPrecondition, hstr, h]

/-- The snapshot that is read from the row of a proposal. -/
lemma snapshot_stored (now : ℕ) (p : Proposal) :
    preconditionSnapshot (storedPrecondition (precondition now p)) =
      ((asU64 (storedValue (.ofNat p.sourceSizeBytes))).getD 0,
        asU64 (storedValue (p.sourceModifiedUnixMs.elim .null .ofNat)),
        p.sourceFileId.filter (· ≠ "")) := by
  rw [storedPrecondition_precondition]
  cases p.sourceFileId <;>
    simp [preconditionSnapshot, getKey, Json.asObj, Contracts.Fields.get, Json.asStr]

/-- Nothing was written of the content. -/
lemma content_stored (now : ℕ) (p : Proposal) :
    readmeWriteContent (storedPrecondition (precondition now p)) =
      .error "README_WRITE precondition is missing approved content" := by
  rw [storedPrecondition_precondition]
  cases p.sourceFileId <;> simp [readmeWriteContent, getKey, Json.asObj, Contracts.Fields.get]

lemma stored_eq {item row : ProposalItem} (h : stored item = some row) :
    row = { item with precondition := storedPrecondition item.precondition } := by
  rw [stored, Option.ite_none_right_eq_some] at h
  exact (Option.some.inj h.2).symm

/-- The proposal that the desktop makes of an approved row. -/
def rebuiltOf (p : Proposal) (src dst : String) : Proposal where
  proposalId := proposalId p.action src dst
  action := p.action
  fromPath := src
  toPath := dst
  content := none
  sourceSizeBytes := (asU64 (storedValue (.ofNat p.sourceSizeBytes))).getD 0
  sourceModifiedUnixMs := asU64 (storedValue (p.sourceModifiedUnixMs.elim .null .ofNat))
  sourceFileId := p.sourceFileId.filter (· ≠ "")
  reason := reasonCode p
  status := p.status

/-- What becomes of a row, one case for each action. -/
lemma localProposalFromItem_stored {now index : ℕ} {p : Proposal} {row : ProposalItem}
    (h : stored (proposalItem now index p) = some row) :
    localProposalFromItem row =
      match p.action with
      | .move => .ok (rebuiltOf p p.fromPath p.toPath)
      | .trash => .ok (rebuiltOf p p.fromPath TRASH_DIR)
      | .createDir | .createFile => .ok (rebuiltOf p "" p.toPath)
      | .readmeWrite => .error "README_WRITE precondition is missing approved content" := by
  rw [stored_eq h]
  cases ha : p.action <;> cases hs : p.status <;>
    simp only [localProposalFromItem, proposalItem, actionType, actionOfType, sourceOf,
      destinationOf, ha, hs, snapshot_stored, content_stored, rebuiltOf] <;> rfl

/-- **The way back of one proposal**: exactly those that are kept come back the same. -/
lemma rebuilt_item_iff {now index : ℕ} {p : Proposal} {row : ProposalItem}
    (h : stored (proposalItem now index p) = some row) :
    (∃ p', localProposalFromItem row = .ok p' ∧ Same p p') ↔ Kept p := by
  have hsame (src dst : String) : (∃ p', .ok (rebuiltOf p src dst) = Except.ok (ε := String) p' ∧
      Same p p') ↔ (p.fromPath = src ∧ p.toPath = dst ∧ p.content = none) ∧
        Survives p.sourceSizeBytes ∧ (∀ n ∈ p.sourceModifiedUnixMs, Survives n) ∧
          p.sourceFileId ≠ some "" := by
    rw [← asU64_getD_iff, ← asU64_mtime_iff, ← fileId_iff]
    constructor
    · rintro ⟨p', hp', h⟩
      cases hp'
      exact ⟨⟨h.fromPath.symm, h.toPath.symm, h.content.symm⟩, h.sourceSizeBytes,
        h.sourceModifiedUnixMs, h.sourceFileId⟩
    · rintro ⟨⟨hfrom, hto, hcontent⟩, hsize, hmtime, hid⟩
      exact ⟨_, rfl, rfl, hfrom.symm, hto.symm, hcontent.symm, hsize, hmtime, hid, rfl⟩
  have hkept : Kept p ↔ Fixed p ∧ Survives p.sourceSizeBytes ∧
      (∀ n ∈ p.sourceModifiedUnixMs, Survives n) ∧ p.sourceFileId ≠ some "" :=
    ⟨fun h => ⟨h.1, h.2, h.3, h.4⟩, fun h => ⟨h.1, h.2.1, h.2.2.1, h.2.2.2⟩⟩
  rw [localProposalFromItem_stored h, hkept, Fixed]
  cases p.action with
  | move => rw [hsame, eq_self p.fromPath, eq_self p.toPath, true_and, true_and]
  | trash => rw [hsame, eq_self p.fromPath, true_and]
  | createDir => rw [hsame, eq_self p.toPath, true_and]
  | createFile => rw [hsame, eq_self p.toPath, true_and]
  | readmeWrite =>
    constructor
    · rintro ⟨p', hp', -⟩
      cases hp'
    · rintro ⟨hno, -⟩
      exact hno.elim

/-! ### The batch -/

lemma localProposals_ok {items : List ProposalItem} {ps : List Proposal} :
    localProposals items = .ok ps ↔
      List.Forall₂ (fun item p => localProposalFromItem item = .ok p) items ps := by
  induction items generalizing ps with
  | nil =>
    rw [List.forall₂_nil_left_iff, localProposals]
    exact ⟨fun h => (Except.ok.inj h).symm, fun h => h ▸ rfl⟩
  | cons item items ih =>
    rw [List.forall₂_cons_left_iff]
    simp only [localProposals, bind_eq_ok]
    constructor
    · rintro ⟨p, hp, ps, hps, h⟩
      exact ⟨p, ps, hp, ih.mp hps, (Except.ok.inj h).symm⟩
    · rintro ⟨p, ps, hp, hps, rfl⟩
      exact ⟨p, hp, ps, ih.mpr hps, rfl⟩

lemma forall₂_of_mapM {α β : Type} {f : α → Option β} {l : List α} {l' : List β}
    (h : l.mapM f = some l') : List.Forall₂ (fun a b => f a = some b) l l' := by
  induction l generalizing l' with
  | nil =>
    cases h
    exact .nil
  | cons a l ih =>
    simp only [List.mapM_cons, Option.bind_eq_bind, Option.bind_eq_some_iff] at h
    obtain ⟨b, hb, bs, hbs, h⟩ := h
    cases h
    exact .cons hb (ih hbs)

/-- Each row is that of the proposal in its place, which is its order. -/
lemma storedRows_get {now : ℕ} {command : AgentCommand} {report : ProposalReport} {max : ℕ}
    {proposal : CreateProposal} {rows : List ProposalItem}
    (h : buildAgentProposalSubmission now command report max = .ok proposal)
    (hrows : storedRows proposal = some rows) :
    (report.proposals.take max).length = rows.length ∧
      ∀ i h₁ h₂, stored (proposalItem now i ((report.proposals.take max).get ⟨i, h₁⟩)) =
        some (rows.get ⟨i, h₂⟩) := by
  unfold buildAgentProposalSubmission at h
  split at h
  swap
  · cases h
  cases h
  rw [storedRows, Option.ite_none_right_eq_some] at hrows
  obtain ⟨hlen, hget⟩ := List.forall₂_iff_get.mp (forall₂_of_mapM hrows.2)
  rw [List.length_mapIdx] at hlen
  refine ⟨hlen, fun i h₁ h₂ => ?_⟩
  have hrow := hget i (by rwa [List.length_mapIdx]) h₂
  simpa only [List.get_eq_getElem, List.getElem_mapIdx] using hrow

lemma storedRows_ne_nil {proposal : CreateProposal} {rows : List ProposalItem}
    (h : storedRows proposal = some rows) : rows ≠ [] := by
  rw [storedRows, Option.ite_none_right_eq_some] at h
  have hlen := (forall₂_of_mapM h.2).length_eq
  have hschema := h.1
  rintro rfl
  simp [Contracts.createProposalSchema, List.length_eq_zero_iff.mp hlen] at hschema

/-- Sorting brings rows in their order back to it. -/
lemma sorted_rows {items rows : List ProposalItem} (hperm : items.Perm rows)
    (h : rows.Pairwise fun a b => a.itemOrder < b.itemOrder) :
    (items.mergeSort fun a b => a.itemOrder ≤ b.itemOrder) = rows := by
  have hsorted : (items.mergeSort fun a b => a.itemOrder ≤ b.itemOrder).Pairwise fun a b =>
      decide (a.itemOrder ≤ b.itemOrder) = true := by
    refine List.pairwise_mergeSort (fun a b c h h' => ?_) (fun a b => ?_) items
    · exact decide_eq_true ((of_decide_eq_true h).trans (of_decide_eq_true h'))
    · rw [Bool.or_eq_true, decide_eq_true_iff, decide_eq_true_iff]
      exact Nat.le_total _ _
  have hperm' : (items.mergeSort fun a b => a.itemOrder ≤ b.itemOrder).Perm rows :=
    (List.mergeSort_perm items _).trans hperm
  have hnodup : (rows.map (·.itemOrder)).Nodup := by
    rw [List.nodup_iff_pairwise_ne, List.pairwise_map]
    exact h.imp Nat.ne_of_lt
  refine List.Perm.eq_of_pairwise (fun a b ha hb hab hba => ?_)
    (hsorted.imp of_decide_eq_true) (h.imp Nat.le_of_lt) hperm'
  exact List.inj_on_of_nodup_map hnodup (hperm'.subset ha) hb (Nat.le_antisymm hab hba)

/-- What is built of sorted rows is built of them in every order. -/
lemma buildLocalProposalReport_ok {items rows : List ProposalItem} {t : Tree} {root : RawPath}
    {g : PathGuard} (hperm : items.Perm rows)
    (h : rows.Pairwise fun a b => a.itemOrder < b.itemOrder) (hne : rows ≠ [])
    (hroot : PathGuard.new t root = .ok g) {report : ProposalReport} :
    buildLocalProposalReport t root items = .ok report ↔
      localProposals rows = .ok report.proposals ∧ report.root = g.root.display := by
  have hitems : items ≠ [] := fun hnil => hne (List.nil_perm.mp (hnil ▸ hperm))
  rw [buildLocalProposalReport, if_neg hitems, hroot, sorted_rows hperm h]
  constructor
  · intro h
    obtain ⟨g', hg', h⟩ := bind_eq_ok.mp h
    cases hg'
    obtain ⟨ps, hps, h⟩ := bind_eq_ok.mp h
    cases h
    exact ⟨hps, rfl⟩
  · rintro ⟨hps, hdisplay⟩
    refine bind_eq_ok.mpr ⟨g, rfl, bind_eq_ok.mpr ⟨_, hps, ?_⟩⟩
    rw [← hdisplay]

lemma forall₂_through {α β γ : Type} {R : β → γ → Prop} {S : α → γ → Prop} {l : List α}
    {l' : List β} : (∃ m, List.Forall₂ R l' m ∧ List.Forall₂ S l m) ↔
      List.Forall₂ (fun a b => ∃ c, R b c ∧ S a c) l l' := by
  constructor
  · rintro ⟨m, hr, hs⟩
    induction hr generalizing l with
    | nil =>
      cases hs
      exact .nil
    | cons hr _ ih =>
      cases hs with
      | cons hs hrest => exact .cons ⟨_, hr, hs⟩ (ih hrest)
  · intro h
    induction h with
    | nil => exact ⟨[], .nil, .nil⟩
    | cons hc _ ih =>
      obtain ⟨c, hr, hs⟩ := hc
      obtain ⟨m, hrs, hss⟩ := ih
      exact ⟨c :: m, .cons hr hrs, .cons hs hss⟩

/-- **The approved batch is rebuilt exactly if each of its proposals is kept.** -/
theorem approved_rebuilt_iff {now : ℕ} {command : AgentCommand} {report : ProposalReport}
    {max : ℕ} {proposal : CreateProposal} {rows : List ProposalItem} {t : Tree} {root : RawPath}
    {g : PathGuard} (h : buildAgentProposalSubmission now command report max = .ok proposal)
    (hrows : storedRows proposal = some rows) (hroot : PathGuard.new t root = .ok g) :
    Rebuilt t root (report.proposals.take max) rows ↔
      ∀ p ∈ report.proposals.take max, Kept p := by
  obtain ⟨hlen, hget⟩ := storedRows_get h hrows
  have hne := storedRows_ne_nil hrows
  generalize report.proposals.take max = approved at hlen hget ⊢
  have hsorted : rows.Pairwise fun a b => a.itemOrder < b.itemOrder := by
    refine List.pairwise_iff_get.mpr fun i j hij => ?_
    have hi : (i : ℕ) < approved.length := by rw [hlen]; exact i.2
    have hj : (j : ℕ) < approved.length := by rw [hlen]; exact j.2
    rw [stored_eq (hget i hi i.2), stored_eq (hget j hj j.2)]
    exact hij
  have hpoint : List.Forall₂ (fun p row => ∃ p', localProposalFromItem row = .ok p' ∧ Same p p')
      approved rows ↔ ∀ p ∈ approved, Kept p := by
    rw [List.forall₂_iff_get]
    constructor
    · rintro ⟨-, hall⟩ p hp
      obtain ⟨i, rfl⟩ := List.mem_iff_get.mp hp
      have hi : (i : ℕ) < rows.length := by rw [← hlen]; exact i.2
      exact (rebuilt_item_iff (hget i i.2 hi)).mp (hall i i.2 hi)
    · intro hall
      exact ⟨hlen, fun i h₁ h₂ =>
        (rebuilt_item_iff (hget i h₁ h₂)).mpr (hall _ (List.get_mem approved ⟨i, h₁⟩))⟩
  rw [← hpoint, ← forall₂_through]
  constructor
  · intro hall
    obtain ⟨report', hreport, hsame⟩ := hall rows (.refl rows)
    obtain ⟨hps, -⟩ := (buildLocalProposalReport_ok (.refl rows) hsorted hne hroot).mp hreport
    exact ⟨report'.proposals, localProposals_ok.mp hps, hsame⟩
  · rintro ⟨ps, hps, hsame⟩ items hperm
    exact ⟨⟨g.root.display, ps⟩, (buildLocalProposalReport_ok hperm hsorted hne hroot).mpr
      ⟨localProposals_ok.mpr hps, rfl⟩, hsame⟩

/-! ### A move and a README -/

/-- A file of 12 bytes goes into a folder. -/
def noteMoved : Proposal where
  proposalId := "move:0123456789abcdef"
  action := .move
  fromPath := "a.txt"
  toPath := "notes/a.txt"
  content := none
  sourceSizeBytes := 12
  sourceModifiedUnixMs := some 1700000000000
  sourceFileId := none
  reason := "USER_REQUESTED_MOVE"
  status := .ready

/-- A README is written. -/
def readmeWritten : Proposal where
  proposalId := "readme_write:0123456789abcdef"
  action := .readmeWrite
  fromPath := "README.md"
  toPath := "README.md"
  content := some "hi"
  sourceSizeBytes := 0
  sourceModifiedUnixMs := none
  sourceFileId := none
  reason := "README_WRITE"
  status := .ready

def nilCommand : AgentCommand :=
  ⟨"00000000-0000-0000-0000-000000000000", "00000000-0000-0000-0000-000000000000"⟩

def submitted (p : Proposal) : CreateProposal :=
  ⟨nilCommand.commandId, nilCommand.roomId, 1, [proposalItem 0 0 p]⟩

def rowOf (p : Proposal) : ProposalItem :=
  { proposalItem 0 0 p with precondition := storedPrecondition (precondition 0 p) }

lemma storedRows_submitted {p : Proposal}
    (h : Contracts.createProposalSchema (submitted p) = true ∧ isKept (precondition 0 p) = true) :
    storedRows (submitted p) = some [rowOf p] := by
  have hrow : stored (proposalItem 0 0 p) = some (rowOf p) := if_pos h.2
  rw [storedRows, if_pos h.1, submitted, List.mapM_cons, hrow]
  rfl

/-- The move comes back as it was approved. -/
theorem approved_rebuilt_noteMoved : Rebuilt .empty (Path.raw []) [noteMoved] [rowOf noteMoved] := by
  have hrows : storedRows (submitted noteMoved) = some [rowOf noteMoved] :=
    storedRows_submitted (by decide +kernel)
  have hbuilt : buildAgentProposalSubmission 0 nilCommand ⟨"", [noteMoved]⟩ 50 =
      .ok (submitted noteMoved) := rfl
  refine (approved_rebuilt_iff hbuilt hrows (new_root rfl)).mpr fun p hp => ?_
  rw [List.mem_singleton.mp hp]
  exact ⟨rfl, survives_of_safe (by decide), by
    rintro n ⟨⟩
    exact survives_of_safe (by decide), nofun⟩

/-- The content of the README has not come to the server, and the batch is not built. -/
theorem not_approved_rebuilt : ¬ ∀ (now : ℕ) (command : AgentCommand) (report : ProposalReport)
    (max : ℕ) (proposal : CreateProposal) (rows : List ProposalItem) (t : Tree) (root : RawPath)
    (g : PathGuard), buildAgentProposalSubmission now command report max = .ok proposal →
      storedRows proposal = some rows → PathGuard.new t root = .ok g →
        Rebuilt t root (report.proposals.take max) rows := by
  intro h
  have hrows : storedRows (submitted readmeWritten) = some [rowOf readmeWritten] :=
    storedRows_submitted (by decide +kernel)
  have hnew : PathGuard.new .empty (Path.raw []) = .ok ⟨[]⟩ := new_root rfl
  obtain ⟨report, hreport, -⟩ := h 0 nilCommand ⟨"", [readmeWritten]⟩ 50 _ _ _ _ _ rfl hrows hnew
    _ (.refl _)
  have hone := ((buildLocalProposalReport_ok (.refl _) (List.pairwise_singleton _ _) (by simp)
    hnew).mp hreport).1
  obtain ⟨p, hp, -⟩ := bind_eq_ok.mp hone
  have hrow : stored (proposalItem 0 0 readmeWritten) = some (rowOf readmeWritten) := rfl
  have hdecode := localProposalFromItem_stored hrow
  cases hdecode.symm.trans hp

end MouseKeeper.Desktop.Builders
