import Mathlib.Data.List.Infix
import MouseKeeper.FileEngine.Analyzer
import MouseKeeper.FileEngine.FileIndex
import MouseKeeper.FileEngine.Proposal

/-!
Rules, and the proposals they make for a scanned root.

A rule set is checked before it is used: every rule has an id of its own, some condition and
exactly one action, and the directory of an action is relative. Of the rules that match a file,
the first one that has something to do makes the proposal, and a proposal whose id was seen
before is dropped.
-/

namespace MouseKeeper.FileEngine

open Posix

def CURRENT_RULES_VERSION : ℕ := 1

def DAY_MS : ℕ := 24 * 60 * 60 * 1000

inductive FileKind
  | file
  | directory
  deriving DecidableEq

structure Condition where
  extensionIn : Option (List String) := none
  olderThanDays : Option ℕ := none
  modifiedAgeDaysGte : Option ℕ := none
  modifiedAgeDaysGt : Option ℕ := none
  createdAgeDaysGte : Option ℕ := none
  createdAgeDaysGt : Option ℕ := none
  sizeBytesGte : Option ℕ := none
  sizeBytesLte : Option ℕ := none
  relativePathStartsWith : Option String := none
  fileKind : Option FileKind := none
  nameMatches : Option String := none
  nameContains : Option String := none
  nameStartsWith : Option String := none
  nameEndsWith : Option String := none
  deriving DecidableEq

structure Action where
  moveTo : Option String
  trash : Bool
  createDir : Option String
  deriving DecidableEq

structure Rule where
  id : String
  priority : ℤ
  when : Condition
  action : Action
  deriving DecidableEq

structure RuleSet where
  version : ℕ
  rules : List Rule
  deriving DecidableEq

inductive RuleError
  | unsupportedVersion (found supported : ℕ)
  | emptyRuleId
  | duplicateRuleId (id : String)
  | emptyCondition (id : String)
  | emptyExtensionList (id : String)
  | invalidExtension (rule extension : String)
  | emptyNamePattern (id : String)
  | invalidTarget (rule target message : String)
  | invalidCondition (rule condition message : String)
  deriving DecidableEq

def RuleError.toText : RuleError → String
  | .unsupportedVersion found supported => "unsupported rules version " ++ toString found ++
      "; this build supports version " ++ toString supported
  | .emptyRuleId => "rule id cannot be empty"
  | .duplicateRuleId id => "duplicate rule id: " ++ id
  | .emptyCondition id => "rule '" ++ id ++ "' must have at least one condition"
  | .emptyExtensionList id => "rule '" ++ id ++ "' has an empty extension_in list"
  | .invalidExtension rule extension => "rule '" ++ rule ++ "' has an invalid extension '" ++
      extension ++ "' (use bare extensions like \"pdf\")"
  | .emptyNamePattern id => "rule '" ++ id ++ "' has an empty name_matches pattern"
  | .invalidTarget rule target message => "rule '" ++ rule ++ "' has an invalid destination '" ++
      target ++ "': " ++ message
  | .invalidCondition rule condition message => "rule '" ++ rule ++
      "' has an invalid condition '" ++ condition ++ "': " ++ message

/-! ### The check of a rule set -/

def Condition.isEmpty (c : Condition) : Bool :=
  c.extensionIn.isNone && c.olderThanDays.isNone && c.modifiedAgeDaysGte.isNone &&
    c.modifiedAgeDaysGt.isNone && c.createdAgeDaysGte.isNone && c.createdAgeDaysGt.isNone &&
    c.sizeBytesGte.isNone && c.sizeBytesLte.isNone && c.relativePathStartsWith.isNone &&
    c.fileKind.isNone && c.nameMatches.isNone && c.nameContains.isNone &&
    c.nameStartsWith.isNone && c.nameEndsWith.isNone

/-- The first component that is no name decides the message. -/
def validateRelativeDir (target : String) : Except String Unit :=
  if trim target = "" then .error "destination is empty"
  else if '\x00' ∈ target.toList then .error "destination cannot contain NUL"
  else if isAbsolute target then .error "destination must be relative to the managed root"
  else
    match (components (segsOf target)).find? fun x => x = .dotdot || x = .dot with
    | some .dotdot => .error "destination cannot contain parent traversal"
    | some _ => .error "destination cannot contain current-directory segments"
    | none => .ok ()

def validateRelativePathPrefix (pre : String) : Except String Unit :=
  (validateRelativeDir pre).mapError ("prefix " ++ ·)

def checkAll {α ε : Type} (f : α → Except ε Unit) : List α → Except ε Unit
  | [] => .ok ()
  | a :: l => do
    f a
    checkAll f l

/-- A check of something that may be absent. -/
def checkSome {α ε : Type} (f : α → Except ε Unit) : Option α → Except ε Unit
  | none => .ok ()
  | some a => f a

def Rule.validate (r : Rule) : Except RuleError Unit :=
  if trim r.id = "" then .error .emptyRuleId
  else if r.when.isEmpty then .error (.emptyCondition r.id)
  else do
    checkSome (fun extensions =>
      if extensions = [] then .error (.emptyExtensionList r.id)
      else checkAll (fun e =>
        if trim e = "" ∨ '.' ∈ e.toList then .error (.invalidExtension r.id e) else .ok ())
        extensions) r.when.extensionIn
    checkSome (fun pattern =>
      if trim pattern = "" then .error (.emptyNamePattern r.id) else .ok ()) r.when.nameMatches
    checkAll (fun c => checkSome (fun pattern =>
        if trim pattern = "" then
          .error (.invalidCondition r.id c.1 "name condition cannot be empty")
        else .ok ()) c.2)
      [("name_contains", r.when.nameContains), ("name_starts_with", r.when.nameStartsWith),
        ("name_ends_with", r.when.nameEndsWith)]
    checkSome (fun pre => (validateRelativePathPrefix pre).mapError
      (.invalidCondition r.id "relative_path_starts_with")) r.when.relativePathStartsWith
    if r.action.moveTo.isSome.toNat + r.action.trash.toNat + r.action.createDir.isSome.toNat ≠ 1
    then .error (.invalidTarget r.id "action" "choose exactly one action")
    else do
      checkSome (fun t => (validateRelativeDir t).mapError (.invalidTarget r.id t)) r.action.moveTo
      checkSome (fun t => (validateRelativeDir t).mapError (.invalidTarget r.id t))
        r.action.createDir

/-- The rules one by one, with the ids seen so far. -/
def validateRules : List String → List Rule → Except RuleError Unit
  | _, [] => .ok ()
  | seen, r :: rules => do
    r.validate
    if r.id ∈ seen then .error (.duplicateRuleId r.id) else validateRules (r.id :: seen) rules

def RuleSet.validate (set : RuleSet) : Except RuleError Unit :=
  if set.version ≠ CURRENT_RULES_VERSION then
    .error (.unsupportedVersion set.version CURRENT_RULES_VERSION)
  else validateRules [] set.rules

/-! ### Matching -/

def toAsciiLowercase (s : String) : String := String.ofList (s.toList.map Char.toLower)

lemma val_toLower {c : Char} (h : c.val ≥ 'A'.val ∧ c.val ≤ 'Z'.val) :
    c.toLower.val = c.val + ('a'.val - 'A'.val) := congrArg Char.val (dif_pos h)

/-- What is no small letter is the lower case of itself only. -/
lemma eq_of_toLower_eq {c d : Char} (hd : d.val.toNat < 97 ∨ 122 < d.val.toNat)
    (h : c.toLower = d) : c = d := by
  by_cases hupper : c.val ≥ 'A'.val ∧ c.val ≤ 'Z'.val
  · have hval := congrArg UInt32.toNat (val_toLower hupper)
    have hlow : 65 ≤ c.val.toNat := hupper.1
    have hhigh : c.val.toNat ≤ 90 := hupper.2
    rw [h, UInt32.toNat_add] at hval
    have hshift : ('a'.val - 'A'.val).toNat = 32 := by decide
    omega
  · exact (dif_neg hupper).symm.trans h

def normalizeRelativePath (path : String) : String :=
  toAsciiLowercase (String.ofList (path.toList.map fun c => if c = '\\' then '/' else c))

/-- The loop of `glob_match`, which ends with a position in the pattern or without a match. The
last `*` that was met stands at `star` and has taken the text up to `starText`. -/
def globLoop (pattern text : List Char) (p t : ℕ) (star : Option ℕ) (starText : ℕ)
    (h : starText ≤ t) : Option ℕ :=
  if t < text.length then
    if p < pattern.length ∧ (pattern[p]? = some '?' ∨ pattern[p]? = text[t]?) then
      globLoop pattern text (p + 1) (t + 1) star starText (Nat.le_succ_of_le h)
    else if p < pattern.length ∧ pattern[p]? = some '*' then
      globLoop pattern text (p + 1) t (some p) t le_rfl
    else
      match star with
      | some star => globLoop pattern text (star + 1) (starText + 1) (some star) (starText + 1)
          le_rfl
      | none => none
  else some p
termination_by (text.length - starText, text.length - t, pattern.length - p)
decreasing_by
  · exact Prod.Lex.right _ (Prod.Lex.left _ _ (by omega))
  · rcases Nat.lt_or_eq_of_le h with hlt | rfl
    · exact Prod.Lex.left _ _ (by omega)
    · exact Prod.Lex.right _ (Prod.Lex.right _ (by omega))
  · exact Prod.Lex.left _ _ (by omega)

def globMatch (pattern text : String) : Bool :=
  let pattern := pattern.toList.map Char.toLower
  match globLoop pattern (text.toList.map Char.toLower) 0 0 none 0 le_rfl with
  | some p => (pattern.drop p).all (· = '*')
  | none => false

structure RuleContext where
  existingPaths : List String
  nowUnixMs : ℕ

def fileName (path : String) : Option String := (segsOf path).fileName.map (·.1)

/-- `age_days_matches`, with the comparison as a parameter. -/
def ageDaysMatches (compare : ℕ → ℕ → Bool) (timestamp : Option ℕ) (now days : ℕ) : Bool :=
  match timestamp with
  | none => false
  | some timestamp => compare (now - timestamp) (days * DAY_MS)

def trimSlashes (s : String) : String :=
  String.ofList ((s.toList.dropWhile (· = '/')).reverse.dropWhile (· = '/')).reverse

def relativePathHasPrefix (path pre : String) : Bool :=
  let path := trimSlashes (normalizeRelativePath path)
  let pre := trimSlashes (normalizeRelativePath pre)
  path = pre || (pre ++ "/").toList.isPrefixOf path.toList

/-- A condition on the lower case of the name of the file. -/
def nameCondition (holds : List Char → List Char → Bool) (path pattern : String) : Bool :=
  match fileName path with
  | some name => holds (toAsciiLowercase pattern).toList (toAsciiLowercase name).toList
  | none => false

def ruleMatches (r : Rule) (file : FileEntry) (context : RuleContext) : Bool :=
  (r.when.extensionIn.all fun extensions =>
    match extensionOf file.path with
    | some extension => extensions.any fun c => toAsciiLowercase c = toAsciiLowercase extension
    | none => false) &&
  (r.when.olderThanDays.all fun days =>
    ageDaysMatches (fun age threshold => threshold ≤ age) file.modifiedUnixMs context.nowUnixMs
      days) &&
  (r.when.modifiedAgeDaysGte.all fun days =>
    ageDaysMatches (fun age threshold => threshold ≤ age) file.modifiedUnixMs context.nowUnixMs
      days) &&
  (r.when.modifiedAgeDaysGt.all fun days =>
    ageDaysMatches (fun age threshold => threshold < age) file.modifiedUnixMs context.nowUnixMs
      days) &&
  (r.when.createdAgeDaysGte.all fun days =>
    ageDaysMatches (fun age threshold => threshold ≤ age) file.createdUnixMs context.nowUnixMs
      days) &&
  (r.when.createdAgeDaysGt.all fun days =>
    ageDaysMatches (fun age threshold => threshold < age) file.createdUnixMs context.nowUnixMs
      days) &&
  (r.when.sizeBytesGte.all fun minSize => minSize ≤ file.sizeBytes) &&
  (r.when.sizeBytesLte.all fun maxSize => file.sizeBytes ≤ maxSize) &&
  (r.when.relativePathStartsWith.all fun pre => relativePathHasPrefix file.path pre) &&
  (r.when.fileKind.all fun kind => kind = .file) &&
  (r.when.nameMatches.all fun pattern =>
    match fileName file.path with
    | some name => globMatch pattern name
    | none => false) &&
  (r.when.nameContains.all (nameCondition (fun needle name => needle <:+: name) file.path)) &&
  (r.when.nameStartsWith.all (nameCondition (fun pre name => pre <+: name) file.path)) &&
  (r.when.nameEndsWith.all (nameCondition (fun suffix name => suffix <:+ name) file.path))

/-! ### Proposals -/

def ProposalAction.asStr : ProposalAction → String
  | .move => "move"
  | .trash => "trash"
  | .createDir => "create_dir"
  | .createFile => "create_file"
  | .readmeWrite => "readme_write"

def fnv1a64 (bytes : List UInt8) : UInt64 :=
  bytes.foldl (fun hash byte => (hash ^^^ byte.toUInt64) * 0x100000001b3) 0xcbf29ce484222325

def proposalId (action : ProposalAction) (src dst : String) : String :=
  let input := action.asStr ++ "|" ++ normalizeRelativePath src ++ "|" ++ normalizeRelativePath dst
  action.asStr ++ ":" ++ hex16 (fnv1a64 input.toUTF8.data.toList).toNat

def reasonFor (r : Rule) (file : FileEntry) : String :=
  if r.action.trash then "rule '" ++ r.id ++ "' moves this into recoverable trash"
  else
    let moveTo := r.action.moveTo.getD "destination"
    match r.when.extensionIn.isSome, extensionOf file.path with
    | true, some extension => "." ++ extension ++ " files belong in " ++ moveTo ++ "/"
    | _, _ => "rule '" ++ r.id ++ "' moves this into " ++ moveTo ++ "/"

def statusOf (context : RuleContext) (target : String) : ProposalStatus :=
  if normalizeRelativePath target ∈ context.existingPaths then .destinationExists else .ready

def moveProposalFromRule (r : Rule) (file : FileEntry) (context : RuleContext) (moveTo : String) :
    Option Proposal :=
  match fileName file.path with
  | none => none
  | some name =>
    let target := moveTo ++ "/" ++ name
    if normalizeRelativePath file.path = normalizeRelativePath target then none
    else some {
      proposalId := proposalId .move file.path target
      action := .move
      fromPath := file.path
      toPath := target
      content := none
      sourceSizeBytes := file.sizeBytes
      sourceModifiedUnixMs := file.modifiedUnixMs
      sourceFileId := file.fileId
      reason := reasonFor r file
      status := statusOf context target }

def trashProposalFromRule (r : Rule) (file : FileEntry) : Proposal where
  proposalId := proposalId .trash file.path TRASH_DIR
  action := .trash
  fromPath := file.path
  toPath := TRASH_DIR
  content := none
  sourceSizeBytes := file.sizeBytes
  sourceModifiedUnixMs := file.modifiedUnixMs
  sourceFileId := file.fileId
  reason := reasonFor r file
  status := .ready

def createDirProposalFromRule (r : Rule) (context : RuleContext) (target : String) :
    Proposal where
  proposalId := proposalId .createDir "" target
  action := .createDir
  fromPath := ""
  toPath := target
  content := none
  sourceSizeBytes := 0
  sourceModifiedUnixMs := none
  sourceFileId := none
  reason := "rule '" ++ r.id ++ "' creates this managed-root directory"
  status := statusOf context target

def proposalFromRule (r : Rule) (file : FileEntry) (context : RuleContext) : Option Proposal :=
  if ruleMatches r file context then
    match r.action.moveTo, r.action.trash, r.action.createDir with
    | some moveTo, false, none => moveProposalFromRule r file context moveTo
    | none, true, none => some (trashProposalFromRule r file)
    | none, false, some createDir => some (createDirProposalFromRule r context createDir)
    | _, _, _ => none
  else none

/-- The rules by priority, and by id among those of one priority. -/
def RuleSet.ordered (set : RuleSet) : List Rule :=
  set.rules.mergeSort fun a b => a.priority < b.priority ∨ a.priority = b.priority ∧ a.id ≤ b.id

def RuleSet.propose (set : RuleSet) (file : FileEntry) (context : RuleContext) :
    Option Proposal :=
  set.ordered.findSome? fun r => proposalFromRule r file context

/-- Those whose key was not seen before. -/
def keepUnseen {α : Type} (key : α → String) : List String → List α → List α
  | _, [] => []
  | seen, a :: l =>
    if key a ∈ seen then keepUnseen key seen l else a :: keepUnseen key (key a :: seen) l

inductive ProposalError
  | analyze (error : AnalyzeError)
  | rule (error : RuleError)
  deriving DecidableEq

def ProposalError.toText : ProposalError → String
  | .analyze error => error.toText
  | .rule error => error.toText

/-- What the rules see of a scan. -/
def AnalyzeReport.context (scan : AnalyzeReport) (now : ℕ) : RuleContext where
  existingPaths := scan.files.map (fun f => normalizeRelativePath f.path) ++
    scan.directories.map normalizeRelativePath
  nowUnixMs := now

def proposeForAnalysisWithRuleSet (now : ℕ) (scan : AnalyzeReport) (set : RuleSet) :
    Except ProposalError ProposalReport := do
  set.validate.mapError .rule
  .ok ⟨scan.root, keepUnseen (·.proposalId) []
    (scan.files.filterMap fun f => set.propose f (scan.context now))⟩

def proposeForRootWithRuleSet (os : Os) (s : Sys) (root : RawPath) (set : RuleSet) :
    Except ProposalError ProposalReport := do
  let scan ← (analyzeRoot os s root).mapError .analyze
  proposeForAnalysisWithRuleSet (unixMs os s) scan set

/-! ### What the check makes sure of -/

/-- An action that the check accepts. -/
inductive Accepted : Action → Prop
  | move (m : String) (h : validateRelativeDir m = .ok ()) : Accepted ⟨some m, false, none⟩
  | trash : Accepted ⟨none, true, none⟩
  | createDir (d : String) (h : validateRelativeDir d = .ok ()) : Accepted ⟨none, false, some d⟩

lemma accepted_of_checks {a : Action} {e : String → String → RuleError}
    (hc : a.moveTo.isSome.toNat + a.trash.toNat + a.createDir.isSome.toNat = 1)
    (hm : checkSome (fun t => (validateRelativeDir t).mapError (e t)) a.moveTo = .ok ())
    (hd : checkSome (fun t => (validateRelativeDir t).mapError (e t)) a.createDir = .ok ()) :
    Accepted a := by
  obtain ⟨m, t, d⟩ := a
  cases t with
  | true =>
    cases m with
    | none =>
      cases d with
      | none => exact .trash
      | some d => cases hc
    | some m => cases d <;> cases hc
  | false =>
    cases m with
    | none =>
      cases d with
      | none => cases hc
      | some d =>
        rw [checkSome] at hd
        exact .createDir d (mapError_eq_ok.mp hd)
    | some m =>
      cases d with
      | none =>
        rw [checkSome] at hm
        exact .move m (mapError_eq_ok.mp hm)
      | some d => cases hc

lemma accepted_of_validate {r : Rule} (h : r.validate = .ok ()) : Accepted r.action := by
  unfold Rule.validate at h
  split at h
  · cases h
  split at h
  · cases h
  simp only [bind_eq_ok] at h
  obtain ⟨-, -, -, -, -, -, -, -, h⟩ := h
  split at h
  · cases h
  · next hc =>
    obtain ⟨_, hm, hd⟩ := bind_eq_ok.mp h
    exact accepted_of_checks (not_not.mp hc) hm hd

lemma validateRules_ok_iff {rules : List Rule} {seen : List String} :
    validateRules seen rules = .ok () ↔ (∀ r ∈ rules, r.validate = .ok () ∧ r.id ∉ seen) ∧
      (rules.map Rule.id).Nodup := by
  induction rules generalizing seen with
  | nil => simp [validateRules]
  | cons r rules ih =>
    rw [validateRules, bind_eq_ok]
    by_cases hseen : r.id ∈ seen
    · simp [hseen]
    · rw [List.forall_mem_cons, List.map_cons, List.nodup_cons]
      simp only [if_neg hseen, ih, List.mem_cons, not_or, List.mem_map]
      constructor
      · rintro ⟨_, hr, hall, hnodup⟩
        refine ⟨⟨⟨hr, hseen⟩, fun x hx => ⟨(hall x hx).1, (hall x hx).2.2⟩⟩, ?_, hnodup⟩
        rintro ⟨x, hx, he⟩
        exact (hall x hx).2.1 he
      · rintro ⟨⟨⟨hr, -⟩, hall⟩, hnew, hnodup⟩
        exact ⟨(), hr, fun x hx => ⟨(hall x hx).1, fun he => hnew ⟨x, hx, he⟩, (hall x hx).2⟩, hnodup⟩

lemma RuleSet.validate_iff {set : RuleSet} : set.validate = .ok () ↔
    set.version = CURRENT_RULES_VERSION ∧ (∀ r ∈ set.rules, r.validate = .ok ()) ∧
      (set.rules.map Rule.id).Nodup := by
  by_cases hv : set.version = CURRENT_RULES_VERSION
  · rw [RuleSet.validate, if_neg (not_not.mpr hv), validateRules_ok_iff]
    simp [hv]
  · simp [RuleSet.validate, hv]

/-! ### Dropping repeated ids -/

section Unseen

variable {α : Type} {key : α → String}

/-- What is kept: what is the first with its key. -/
lemma mem_keepUnseen {l : List α} {seen : List String} {a : α} :
    a ∈ keepUnseen key seen l ↔ ∃ pre post, l = pre ++ a :: post ∧ key a ∉ seen ∧
      ∀ b ∈ pre, key b ≠ key a := by
  induction l generalizing seen with
  | nil => simp [keepUnseen]
  | cons b l ih =>
    unfold keepUnseen
    split
    · next hb =>
      rw [ih]
      constructor
      · rintro ⟨pre, post, rfl, ha, hpre⟩
        refine ⟨b :: pre, post, rfl, ha, List.forall_mem_cons.mpr ⟨?_, hpre⟩⟩
        exact fun he => ha (he ▸ hb)
      · rintro ⟨pre, post, hl, ha, hpre⟩
        cases pre with
        | nil =>
          obtain ⟨rfl, -⟩ := List.cons.inj hl
          exact absurd hb ha
        | cons c pre =>
          obtain ⟨rfl, rfl⟩ := List.cons.inj hl
          exact ⟨pre, post, rfl, ha, (List.forall_mem_cons.mp hpre).2⟩
    · next hb =>
      rw [List.mem_cons, ih]
      constructor
      · rintro (rfl | ⟨pre, post, rfl, ha, hpre⟩)
        · exact ⟨[], l, rfl, hb, fun c hc => absurd hc List.not_mem_nil⟩
        · rw [List.mem_cons, not_or] at ha
          exact ⟨b :: pre, post, rfl, ha.2, List.forall_mem_cons.mpr ⟨Ne.symm ha.1, hpre⟩⟩
      · rintro ⟨pre, post, hl, ha, hpre⟩
        cases pre with
        | nil =>
          obtain ⟨rfl, -⟩ := List.cons.inj hl
          exact .inl rfl
        | cons c pre =>
          obtain ⟨rfl, rfl⟩ := List.cons.inj hl
          obtain ⟨hc, hpre⟩ := List.forall_mem_cons.mp hpre
          refine .inr ⟨pre, post, rfl, ?_, hpre⟩
          rw [List.mem_cons, not_or]
          exact ⟨Ne.symm hc, ha⟩

end Unseen

end MouseKeeper.FileEngine
