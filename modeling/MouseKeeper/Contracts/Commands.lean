import MouseKeeper.Contracts.RuleDefinition

/-!
The payloads that the server accepts for a command that ends in a proposal.
-/

namespace MouseKeeper.Contracts

structure RenameCommandPayload where
  rootId : String
  sourceRelativePath : String
  newName : String
  deriving DecidableEq

structure MoveCommandPayload where
  rootId : String
  sourceRelativePaths : List String
  destinationRelativeDirectory : String
  deriving DecidableEq

structure TrashCommandPayload where
  rootId : String
  sourceRelativePaths : List String
  deriving DecidableEq

structure CreateFileCommandPayload where
  rootId : String
  kind : String
  relativePath : String
  content : Option String
  deriving DecidableEq

structure OrganizeCommandPayload where
  rootId : String
  scopeRelativePath : String
  instruction : Option String
  ruleDraft : Option RuleDefinition

def commandRootIdSchema (j : Json) : Option String := do
  let value ← trimmed 160 (← j.asStr)
  if '\x00' ∈ value.toList then none else some value

/-- `schema.optional()`. -/
def optional {α : Type} (schema : Json → Option α) : Option Json → Option (Option α)
  | none => some none
  | some j => (schema j).map some

/-- `z.array(relativePathSchema).min(1).max(200)`. -/
def sourcesSchema (j : Json) : Option (List String) := do
  let sources ← (← j.asArr).mapM (asStrWith relativePathSchema)
  if 1 ≤ sources.length ∧ sources.length ≤ 200 then some sources else none

def renameCommandPayloadSchema (j : Json) : Option RenameCommandPayload := do
  let fields ← j.strict ["rootId", "sourceRelativePath", "newName"]
  let rootId ← commandRootIdSchema (← fields.get "rootId")
  let source ← asStrWith relativePathSchema (← fields.get "sourceRelativePath")
  let newName ← asStrWith fileNameSchema (← fields.get "newName")
  some ⟨rootId, source, newName⟩

def moveCommandPayloadSchema (j : Json) : Option MoveCommandPayload := do
  let fields ← j.strict ["rootId", "sourceRelativePaths", "destinationRelativeDirectory"]
  let rootId ← commandRootIdSchema (← fields.get "rootId")
  let sources ← sourcesSchema (← fields.get "sourceRelativePaths")
  let directory ← asStrWith relativeDirectorySchema (← fields.get "destinationRelativeDirectory")
  some ⟨rootId, sources, directory⟩

def trashCommandPayloadSchema (j : Json) : Option TrashCommandPayload := do
  let fields ← j.strict ["rootId", "sourceRelativePaths"]
  let rootId ← commandRootIdSchema (← fields.get "rootId")
  let sources ← sourcesSchema (← fields.get "sourceRelativePaths")
  some ⟨rootId, sources⟩

def createFileCommandPayloadSchema (j : Json) : Option CreateFileCommandPayload := do
  let fields ← j.strict ["rootId", "kind", "relativePath", "content"]
  let rootId ← commandRootIdSchema (← fields.get "rootId")
  let kind ← asStrWith (fun s => s = "FILE" || s = "DIRECTORY") (← fields.get "kind")
  let relativePath ← asStrWith relativePathSchema (← fields.get "relativePath")
  let content ← optional (asStrWith fun s => length s ≤ 200000) (fields.get "content")
  some ⟨rootId, kind, relativePath, content⟩

def organizeCommandPayloadSchema (j : Json) : Option OrganizeCommandPayload := do
  let fields ← j.strict ["rootId", "scopeRelativePath", "instruction", "ruleDraft"]
  let rootId ← commandRootIdSchema (← fields.get "rootId")
  let scope ← asStrWith relativeDirectorySchema (← fields.get "scopeRelativePath")
  let instruction ← optional (fun j => j.asStr.bind (trimmed 2000)) (fields.get "instruction")
  let ruleDraft ← optional ruleDefinitionSchema (fields.get "ruleDraft")
  some ⟨rootId, scope, instruction, ruleDraft⟩

inductive CommandIntent
  | rename
  | move
  | organize
  | create
  | trash
  deriving DecidableEq

/-- What the server has let through, by its intent. -/
inductive CommandPayload
  | rename (payload : RenameCommandPayload)
  | move (payload : MoveCommandPayload)
  | organize (payload : OrganizeCommandPayload)
  | create (payload : CreateFileCommandPayload)
  | trash (payload : TrashCommandPayload)

def commandPayloadSchema (intent : CommandIntent) (j : Json) : Option CommandPayload :=
  match intent with
  | .rename => (renameCommandPayloadSchema j).map .rename
  | .move => (moveCommandPayloadSchema j).map .move
  | .organize => (organizeCommandPayloadSchema j).map .organize
  | .create => (createFileCommandPayloadSchema j).map .create
  | .trash => (trashCommandPayloadSchema j).map .trash

/-! ### What is let through -/

lemma sourcesSchema_checked {j : Json} {sources : List String} (h : sourcesSchema j = some sources) :
    (1 ≤ sources.length ∧ sources.length ≤ 200) ∧ ∀ s ∈ sources, relativePathSchema s = true := by
  simp only [sourcesSchema, Option.bind_eq_bind, Option.bind_eq_some_iff] at h
  obtain ⟨items, -, l, hl, h⟩ := h
  split at h
  · next hlen =>
    cases h
    refine ⟨hlen, fun s hs => ?_⟩
    obtain ⟨j, -, hj⟩ := mem_of_mapM hl s hs
    exact asStrWith_check hj
  · cases h

/-- The checks of a payload that the proposals depend on. -/
def CommandPayload.Checked : CommandPayload → Prop
  | .rename p => relativePathSchema p.sourceRelativePath = true
  | .move p => (1 ≤ p.sourceRelativePaths.length ∧ p.sourceRelativePaths.length ≤ 200) ∧
      ∀ s ∈ p.sourceRelativePaths, relativePathSchema s = true
  | .organize _ => True
  | .create p => relativePathSchema p.relativePath = true
  | .trash p => (1 ≤ p.sourceRelativePaths.length ∧ p.sourceRelativePaths.length ≤ 200) ∧
      ∀ s ∈ p.sourceRelativePaths, relativePathSchema s = true

lemma commandPayloadSchema_checked {intent : CommandIntent} {j : Json} {payload : CommandPayload}
    (h : commandPayloadSchema intent j = some payload) : payload.Checked := by
  cases intent with
  | rename =>
    obtain ⟨p, hp, rfl⟩ := Option.map_eq_some_iff.mp h
    simp only [renameCommandPayloadSchema, Option.bind_eq_bind, Option.bind_eq_some_iff] at hp
    obtain ⟨fields, -, _, -, rootId, -, _, -, source, hs, _, -, newName, -, hp⟩ := hp
    cases hp
    exact asStrWith_check hs
  | move =>
    obtain ⟨p, hp, rfl⟩ := Option.map_eq_some_iff.mp h
    simp only [moveCommandPayloadSchema, Option.bind_eq_bind, Option.bind_eq_some_iff] at hp
    obtain ⟨fields, -, _, -, rootId, -, _, -, sources, hs, _, -, directory, -, hp⟩ := hp
    cases hp
    exact sourcesSchema_checked hs
  | organize =>
    obtain ⟨p, -, rfl⟩ := Option.map_eq_some_iff.mp h
    exact True.intro
  | create =>
    obtain ⟨p, hp, rfl⟩ := Option.map_eq_some_iff.mp h
    simp only [createFileCommandPayloadSchema, Option.bind_eq_bind, Option.bind_eq_some_iff] at hp
    obtain ⟨fields, -, _, -, rootId, -, _, -, kind, -, _, -, path, hpath, content, -, hp⟩ := hp
    cases hp
    exact asStrWith_check hpath
  | trash =>
    obtain ⟨p, hp, rfl⟩ := Option.map_eq_some_iff.mp h
    simp only [trashCommandPayloadSchema, Option.bind_eq_bind, Option.bind_eq_some_iff] at hp
    obtain ⟨fields, -, _, -, rootId, -, _, -, sources, hs, hp⟩ := hp
    cases hp
    exact sourcesSchema_checked hs

end MouseKeeper.Contracts
