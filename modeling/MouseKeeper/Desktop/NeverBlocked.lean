import MouseKeeper.Desktop.WorkLists

/-!
Which lists of work are worked through whatever one of their items is.

A list that is collected into one result is attended as a whole or not at all. The server measures
paths and cursors in UTF-16 units and trims as JavaScript does; the desktop measures bytes and
trims by Unicode.
-/

namespace MouseKeeper.Desktop.WorkLists

open Contracts (Json asStrWith_check mem_of_mapM)

/-! ### The claim and its condition -/

/-- A list of some other kind that is collected into one result. -/
structure Collected where
  Response : Type
  Record : Type
  validate : Response → Except AgentError Record
  responses : List Response

/-- The lists that the server returns, with what becomes of the reports on agent tools. -/
structure Served (Tool : Type) where
  transfers : List PendingTransfer
  browses : List PendingBrowse
  commands : List ServerCommand
  decisions : List PendingDecisionResponse
  others : List Collected
  tools : List Tool
  supported : Tool → Bool
  reports : Tool → Bool

/-- Every item is worked on in the list as it is when it stands alone. -/
def Independent {α : Type} (process : List α → List α) (l : List α) : Prop :=
  process l = l.flatMap fun a => process [a]

structure NeverBlocked {Tool : Type} (s : Served Tool) : Prop where
  transfersPass : (validateFileTransfers (s.transfers.map (·.response))).isOk
  browsesPass : (validateFileBrowseRequests (s.browses.map (·.response))).isOk
  transfers : Independent (attended validateFileTransfers) (s.transfers.map (·.response))
  browses : Independent (attended validateFileBrowseRequests) (s.browses.map (·.response))
  commands : Independent (attended pollCommands) s.commands
  decisions : Independent (attended validatePendingDecisions) s.decisions
  others : ∀ c ∈ s.others, Independent (attended (collect c.validate)) c.responses
  tools : Independent (processPendingAgentTools s.supported s.reports) s.tools

/-- The texts are within the limits in bytes, and the query has nothing that Unicode trims. -/
structure PendingBrowse.Fits (b : PendingBrowse) : Prop where
  directory : len b.request.relativeDirectory ≤ 1024
  cursor : ∀ cursor ∈ b.request.cursor, len cursor ≤ 512
  query : ∀ query ∈ b.request.query, query = FileEngine.trim query

/-- All of the items are valid, or none is. -/
def Alike {α β : Type} (validate : α → Except AgentError β) (l : List α) : Prop :=
  (∀ a ∈ l, (validate a).isOk) ∨ ∀ a ∈ l, ¬ (validate a).isOk

/-- No known tool whose report fails stands before a tool whose report succeeds. -/
def NoneStopped {α : Type} (supported reports : α → Bool) (l : List α) : Prop :=
  ∀ pre r post, l = pre ++ r :: post → supported r → ¬ reports r → ∀ a ∈ post, ¬ reports a

structure Passing {Tool : Type} (s : Served Tool) : Prop where
  transfers : ∀ t ∈ s.transfers, len t.sourceRelativePath ≤ 1024
  browses : ∀ b ∈ s.browses, b.Fits
  commands : Alike validateServerCommand s.commands
  decisions : Alike validatePendingDecision s.decisions
  others : ∀ c ∈ s.others, Alike c.validate c.responses
  tools : NoneStopped s.supported s.reports s.tools

/-! ### A list collected into one result -/

section Collected

variable {α β : Type} {validate : α → Except AgentError β}

lemma collect_isOk {l : List α} : (collect validate l).isOk ↔ ∀ a ∈ l, (validate a).isOk := by
  induction l with
  | nil => simp [collect, Except.isOk, Except.toBool]
  | cons a l ih =>
    rw [List.forall_mem_cons, ← ih, collect]
    cases validate a with
    | error e => simp [Except.isOk, Except.toBool, bind, Except.bind]
    | ok b =>
      cases collect validate l with
      | error e => simp [Except.isOk, Except.toBool, bind, Except.bind]
      | ok bs => simp [Except.isOk, Except.toBool, bind, Except.bind]

lemma attended_eq {v : List α → Except AgentError (List β)} {l : List α} :
    attended v l = if (v l).isOk then l else [] := by
  unfold attended
  cases v l with
  | error e => rfl
  | ok bs => rfl

lemma attended_singleton {a : α} :
    attended (collect validate) [a] = if (validate a).isOk then [a] else [] := by
  simp only [attended_eq, collect_isOk, List.forall_mem_singleton]

/-- One valid item next to an invalid one is kept from being worked on. -/
lemma independent_collect {l : List α} :
    Independent (attended (collect validate)) l ↔ Alike validate l := by
  rw [Independent, attended_eq]
  simp only [attended_singleton, collect_isOk]
  constructor
  · intro h
    by_cases hall : ∀ a ∈ l, (validate a).isOk
    · exact .inl hall
    · refine .inr fun a ha hok => ?_
      rw [if_neg hall, eq_comm, List.flatMap_eq_nil_iff] at h
      have hnil := h a ha
      rw [if_pos hok] at hnil
      cases hnil
  · rintro (h | h)
    · rw [if_pos h, List.flatMap_congr fun a ha => if_pos (h a ha), List.flatMap_singleton']
    · have hnil : l.flatMap (fun a => if (validate a).isOk then [a] else []) = [] :=
        List.flatMap_eq_nil_iff.mpr fun a ha => if_neg (h a ha)
      rw [hnil]
      split
      · rename_i hall
        exact List.eq_nil_iff_forall_not_mem.mpr fun a ha => h a ha (hall a ha)
      · rfl

end Collected

/-! ### A list that is given up at a report -/

section Tools

variable {α : Type} {supported reports : α → Bool}

lemma processPendingAgentTools_singleton {a : α} :
    processPendingAgentTools supported reports [a] = if reports a then [a] else [] := by
  simp [processPendingAgentTools]

lemma processPendingAgentTools_eq_nil {l : List α} (h : ∀ a ∈ l, ¬ reports a) :
    processPendingAgentTools supported reports l = [] := by
  induction l with
  | nil => rfl
  | cons r rest ih =>
    rw [List.forall_mem_cons] at h
    rw [processPendingAgentTools, if_neg h.1, ih h.2, ite_self]

lemma noneStopped_cons {r : α} {rest : List α} : NoneStopped supported reports (r :: rest) ↔
    (supported r → ¬ reports r → ∀ a ∈ rest, ¬ reports a) ∧
      NoneStopped supported reports rest := by
  constructor
  · exact fun h => ⟨h [] r rest rfl, fun pre r' post heq =>
      h (r :: pre) r' post (congrArg (r :: ·) heq)⟩
  · rintro ⟨hhead, hrest⟩ pre r' post heq
    cases pre with
    | nil =>
      obtain ⟨rfl, rfl⟩ := List.cons.inj heq
      exact hhead
    | cons a pre => exact hrest pre r' post (List.cons.inj heq).2

/-- The tools after a known one whose report fails are not reached. -/
lemma independent_processPendingAgentTools {l : List α} :
    Independent (processPendingAgentTools supported reports) l ↔ NoneStopped supported reports l := by
  rw [Independent]
  simp only [processPendingAgentTools_singleton]
  induction l with
  | nil => exact iff_of_true rfl fun pre r post h => by simp at h
  | cons r rest ih =>
    rw [List.flatMap_cons, noneStopped_cons, ← ih, processPendingAgentTools]
    by_cases hr : reports r
    · simp only [if_pos hr, List.singleton_append, List.cons.injEq, true_and]
      exact ⟨fun h => ⟨fun _ hno => absurd hr hno, h⟩, And.right⟩
    · rw [if_neg hr, if_neg hr, List.nil_append]
      split <;> rename_i hs
      · rw [eq_comm, List.flatMap_eq_nil_iff]
        constructor
        · intro h
          have hno : ∀ a ∈ rest, ¬ reports a := fun a ha hra => by
            have hnil := h a ha
            rw [if_pos hra] at hnil
            cases hnil
          exact ⟨fun _ _ => hno, (processPendingAgentTools_eq_nil hno).trans
            (List.flatMap_eq_nil_iff.mpr h).symm⟩
        · exact fun h a ha => if_neg (h.1 hs hr a ha)
      · exact ⟨fun h => ⟨fun hs' => absurd hs' hs, h⟩, And.right⟩

end Tools

/-! ### The stored requests -/

lemma PendingTransfer.validate_isOk (t : PendingTransfer) :
    (validateFileTransferResponse t.response).isOk ↔ len t.sourceRelativePath ≤ 1024 := by
  obtain ⟨input, h⟩ := t.accepted
  simp only [Contracts.createFileTransferSchema, Option.bind_eq_bind,
    Option.bind_eq_some_iff] at h
  obtain ⟨-, -, j, -, h⟩ := h
  have hne : t.sourceRelativePath ≠ "" := by
    have hpath := asStrWith_check h
    simp only [Contracts.relativePathSchema, Bool.and_eq_true, decide_eq_true_eq] at hpath
    exact hpath.1.1.1.1.1.1
  unfold validateFileTransferResponse
  split
  · rename_i hbad
    refine iff_of_false (by simp [Except.isOk, Except.toBool]) fun hlen => ?_
    rcases hbad with h | h | h | h | h | h | ⟨_, h, -⟩
    · exact t.id.2 h
    · exact t.roomId.2 h
    · exact hne h
    · exact absurd hlen (not_le.mpr h)
    · exact t.expiresAt.2 h
    · exact h List.mem_cons_self
    · cases h
  · rename_i hgood
    simp only [not_or] at hgood
    exact iff_of_true rfl (not_lt.mp hgood.2.2.2.1)

/-- What the schema has checked of a browse request. -/
structure Checked (r : Contracts.FileBrowseRequest) : Prop where
  query : ∀ query ∈ r.query, 2 ≤ query.toList.length ∧ query.toList.length ≤ 100
  extensions : fileBrowseExtensionsAreValid r.extensions
  limit : r.limit ≠ 0 ∧ r.limit ≤ 200
  needed : r.query = none → r.extensions = []

lemma fileBrowseSearchQuerySchema_length {j : Json} {query : String}
    (h : Contracts.fileBrowseSearchQuerySchema j = some query) :
    2 ≤ query.toList.length ∧ query.toList.length ≤ 100 := by
  simp only [Contracts.fileBrowseSearchQuerySchema, Option.bind_eq_bind,
    Option.bind_eq_some_iff] at h
  obtain ⟨s, -, h⟩ := h
  split at h
  · rename_i hlen
    cases h
    exact hlen.2
  · cases h

lemma extensionsSchema_valid {j : Json} {extensions : List String}
    (h : Contracts.extensionsSchema j = some extensions) :
    fileBrowseExtensionsAreValid extensions := by
  simp only [Contracts.extensionsSchema, Option.bind_eq_bind, Option.bind_eq_some_iff] at h
  obtain ⟨items, -, l, hl, h⟩ := h
  split at h
  · rename_i hlen
    cases h
    have hall : extensions.all Contracts.isExtension := by
      refine List.all_eq_true.mpr fun e he => ?_
      obtain ⟨j, -, hj⟩ := mem_of_mapM hl e he
      exact asStrWith_check hj
    simp only [fileBrowseExtensionsAreValid, Bool.or_eq_true, Bool.and_eq_true, decide_eq_true_eq]
    exact .inr ⟨hlen, hall⟩
  · cases h

lemma limitSchema_le {j : Json} {limit : ℕ} (h : Contracts.limitSchema j = some limit) :
    limit ≠ 0 ∧ limit ≤ 200 := by
  simp only [Contracts.limitSchema, Option.bind_eq_bind, Option.bind_eq_some_iff] at h
  obtain ⟨n, -, h⟩ := h
  split at h
  · cases h
    omega
  · cases h

lemma nullable_some {α : Type} {schema : Json → Option α} {j : Option Json} {a : α}
    (h : Contracts.nullable schema j = some (some a)) : ∃ j, schema j = some a := by
  unfold Contracts.nullable at h
  split at h
  · cases h
  · cases h
  · obtain ⟨b, hb, hab⟩ := Option.map_eq_some_iff.mp h
    cases hab
    exact ⟨_, hb⟩

/-- A field with a default has the default or a checked value. -/
lemma withDefault_spec {α : Type} {schema : Json → Option α} {value a : α} {j : Option Json}
    {p : α → Prop} (h : Contracts.withDefault schema value j = some a) (hvalue : p value)
    (hschema : ∀ j b, schema j = some b → p b) : p a := by
  cases j with
  | none =>
    cases h
    exact hvalue
  | some j => exact hschema j a h

lemma PendingBrowse.checked (b : PendingBrowse) : Checked b.request := by
  obtain ⟨input, h⟩ := b.accepted
  simp only [Contracts.createFileBrowseRequestSchema, Option.bind_eq_bind,
    Option.bind_eq_some_iff] at h
  obtain ⟨fields, -, dir, -, directory, -, cursor, -, query, hquery, extensions, hext, limit,
    hlimit, scope, -, h⟩ := h
  split at h
  · cases h
  rename_i hneeded
  rw [← Option.some.inj h]
  refine ⟨fun q hq => ?_, ?_, ?_, fun hnone => ?_⟩
  · obtain rfl : query = some q := hq
    obtain ⟨j, hj⟩ := nullable_some hquery
    exact fileBrowseSearchQuerySchema_length hj
  · exact withDefault_spec (p := fun l => fileBrowseExtensionsAreValid l) hext (by decide)
      fun j l => extensionsSchema_valid
  · exact withDefault_spec (p := fun n => n ≠ 0 ∧ n ≤ 200) hlimit (by decide)
      fun j n => limitSchema_le
  · exact List.eq_nil_of_length_eq_zero (Nat.eq_zero_of_not_pos fun hpos => hneeded ⟨hpos, hnone⟩)

lemma PendingBrowse.validate_isOk (b : PendingBrowse) :
    (validateFileBrowseRequest b.response).isOk ↔ b.Fits := by
  have hchecked := b.checked
  unfold validateFileBrowseRequest
  split
  · rename_i hbad
    refine iff_of_false (by simp [Except.isOk, Except.toBool]) fun hfits => ?_
    rcases hbad with h | h | h | ⟨c, hc, h⟩ | ⟨q, hq, h⟩ | h | h | h | h | h
    · exact b.id.2 h
    · exact b.roomId.2 h
    · exact absurd hfits.directory (not_le.mpr h)
    · exact absurd (hfits.cursor c hc) (not_le.mpr h)
    · have htrim := hfits.query q hq
      rw [← htrim] at h
      exact h.elim (fun h => h (hchecked.query q hq)) (fun h => h rfl)
    · exact hchecked.limit.1 h
    · exact absurd hchecked.limit.2 (not_le.mpr h)
    · exact h hchecked.extensions
    · exact h.2 (hchecked.needed h.1)
    · exact h rfl
  · rename_i hgood
    simp only [not_or, not_exists, not_and, not_lt, not_not] at hgood
    obtain ⟨-, -, hdir, hcursor, hquery, -⟩ := hgood
    exact iff_of_true rfl ⟨hdir, hcursor, fun q hq => (hquery q hq).2⟩

/-! ### The lists of requests -/

lemma validateFileTransfers_isOk {l : List PendingTransfer} :
    (validateFileTransfers (l.map (·.response))).isOk ↔ ∀ t ∈ l, len t.sourceRelativePath ≤ 1024 := by
  rw [validateFileTransfers, collect_isOk, List.forall_mem_map]
  exact forall₂_congr fun t _ => t.validate_isOk

lemma validateFileBrowseRequests_isOk {l : List PendingBrowse} :
    (validateFileBrowseRequests (l.map (·.response))).isOk ↔ ∀ b ∈ l, b.Fits := by
  rw [validateFileBrowseRequests, collect_isOk, List.forall_mem_map]
  exact forall₂_congr fun b _ => b.validate_isOk

/-- A file name of 400 Hangul syllables, each of three bytes. -/
def longName : String := String.ofList (List.replicate 400 '가')

lemma longName_path : Contracts.relativePathSchema longName := by
  refine Contracts.relativePathSchema_ofList (fun c hc => ?_) ?_ ?_
  · rw [List.eq_of_mem_replicate hc]
    decide
  all_goals rw [List.length_replicate]; decide

lemma longName_len : ¬ len longName ≤ 1024 := by decide +kernel

/-- The request for a path in the root. -/
def pendingTransfer (id : Token) (path : String) (h : Contracts.relativePathSchema path) :
    PendingTransfer where
  id := id
  roomId := ⟨"room-1", by decide⟩
  expiresAt := ⟨"2026-01-01T00:00:00.000Z", by decide⟩
  sourceRelativePath := path
  accepted := ⟨.obj [("sourceRelativePath", .str path)], if_pos h⟩

def longTransfer : PendingTransfer :=
  pendingTransfer ⟨"transfer-1", by decide⟩ longName longName_path

def shortTransfer : PendingTransfer :=
  pendingTransfer ⟨"transfer-2", by decide⟩ "a.txt" (by decide +kernel)

end MouseKeeper.Desktop.WorkLists
