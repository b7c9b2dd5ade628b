import MouseKeeper.Contracts.Common

/-!
What the server accepts as a proposal for a command.

The fields that the desktop leaves out or null, `expiresAt` and the two drafts of a README, are
left out here, too.
-/

namespace MouseKeeper.Contracts

def isHex (c : Char) : Bool := c.isDigit || ('a' ≤ c && c ≤ 'f') || ('A' ≤ c && c ≤ 'F')

/-- The pattern of a UUID, one test for each character. -/
def uuidPattern : List (Char → Bool) :=
  let hyphen : Char → Bool := (· = '-')
  List.replicate 8 isHex ++ hyphen :: List.replicate 4 isHex ++
    hyphen :: (fun c => '1' ≤ c && c ≤ '8') :: List.replicate 3 isHex ++
    hyphen :: ['8', '9', 'a', 'b', 'A', 'B'].contains :: List.replicate 3 isHex ++
    hyphen :: List.replicate 12 isHex

/-- `z.uuid()`. -/
def uuidSchema (value : String) : Bool :=
  value = "00000000-0000-0000-0000-000000000000" ||
    value = "ffffffff-ffff-ffff-ffff-ffffffffffff" ||
    (value.toList.length = uuidPattern.length &&
      (uuidPattern.zip value.toList).all fun x => x.1 x.2)

inductive ProposalActionType
  | move
  | quarantine
  | createDir
  | createFile
  | readmeWrite
  deriving DecidableEq

inductive ConflictState
  | none
  | nameConflict
  | unsupported
  deriving DecidableEq

structure ProposalItem where
  itemOrder : ℕ
  actionType : ProposalActionType
  sourceRelativePath : Option String
  destinationRelativePath : Option String
  reasonCode : String
  precondition : Json
  conflictState : ConflictState

structure CreateProposal where
  commandId : String
  roomId : String
  itemCount : ℕ
  items : List ProposalItem

def proposalItemSchema (i : ProposalItem) : Bool :=
  i.itemOrder ≤ Json.MAX_SAFE_INTEGER && i.sourceRelativePath.all relativePathSchema &&
    i.destinationRelativePath.all relativePathSchema && 1 ≤ length i.reasonCode &&
    length i.reasonCode ≤ 100 && i.precondition.asObj.isSome

/-- `JSON.stringify` of a summary. -/
def summaryText (itemCount : ℕ) : String := "\x7b\"itemCount\":" ++ toString itemCount ++ "\x7d"

def summarySchema (itemCount : ℕ) : Bool :=
  itemCount ≤ Json.MAX_SAFE_INTEGER && length (summaryText itemCount) ≤ 256000

/-- `replaceAll("\\", "/")`. -/
def normalized (path : String) : String := String.ofList (path.toList.map slashed)

/-- No source comes a second time. -/
def noneRepeated : List String → List (Option String) → Bool
  | _, [] => true
  | seen, none :: sources => noneRepeated seen sources
  | seen, some source :: sources =>
    if source = "" then noneRepeated seen sources
    else normalized source ∉ seen && noneRepeated (normalized source :: seen) sources

def createProposalSchema (p : CreateProposal) : Bool :=
  uuidSchema p.commandId && uuidSchema p.roomId && summarySchema p.itemCount &&
    1 ≤ p.items.length && p.items.length ≤ 200 && p.items.all proposalItemSchema &&
    noneRepeated [] (p.items.map (·.sourceRelativePath))

/-! ### Sources -/

lemma noneRepeated_iff {seen : List String} {sources : List (Option String)}
    (hne : some "" ∉ sources) : noneRepeated seen sources = true ↔
      (∀ s, some s ∈ sources → normalized s ∉ seen) ∧
      ((sources.filterMap fun s => s.map normalized)).Nodup := by
  induction sources generalizing seen with
  | nil => simp [noneRepeated]
  | cons source sources ih =>
    rw [List.mem_cons, not_or] at hne
    cases source with
    | none => simp [noneRepeated, ih hne.2]
    | some s =>
      have hs : s ≠ "" := fun h => hne.1 (h ▸ rfl)
      rw [noneRepeated, if_neg hs, Bool.and_eq_true, ih hne.2]
      simp only [decide_eq_true_eq, List.mem_cons, not_or, Option.some.injEq,
        List.filterMap_cons_some (show (some s).map normalized = some (normalized s) from rfl),
        List.nodup_cons, List.mem_filterMap, Option.map_eq_some_iff]
      constructor
      · rintro ⟨hno, hall, hnodup⟩
        refine ⟨?_, ?_, hnodup⟩
        · rintro x (rfl | hx)
          · exact hno
          · exact (hall x hx).2
        · rintro ⟨x, hx, y, rfl, heq⟩
          exact (hall y hx).1 heq
      · rintro ⟨hall, hnew, hnodup⟩
        refine ⟨hall s (.inl rfl), fun x hx => ⟨fun heq => hnew ⟨some x, hx, x, rfl, heq⟩,
          hall x (.inr hx)⟩, hnodup⟩

end MouseKeeper.Contracts
