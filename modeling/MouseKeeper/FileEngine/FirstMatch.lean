import MouseKeeper.FileEngine.Rules

/-!
Of the rules that match a file, the first is to decide alone.

The first is the least by priority and then by id. A rule that moves the file to where it already
sits has nothing to propose, and then the rules after it are asked too.
-/

namespace MouseKeeper.FileEngine

/-- The order in which the rules are tried. -/
def Rule.Before (a b : Rule) : Prop :=
  a.priority < b.priority ∨ a.priority = b.priority ∧ a.id ≤ b.id

/-- The rule matches, and no other rule that matches comes before it. -/
structure RuleSet.Wins (set : RuleSet) (file : FileEntry) (context : RuleContext) (r : Rule) :
    Prop where
  mem : r ∈ set.rules
  applies : ruleMatches r file context = true
  least : ∀ r' ∈ set.rules, ruleMatches r' file context = true → r.Before r'

/-- However the rules are listed, the one that wins decides alone. -/
def RuleSet.FirstMatchWins (set : RuleSet) (file : FileEntry) (context : RuleContext) : Prop :=
  ∀ rules, rules.Perm set.rules →
    (∀ r, set.Wins file context r →
      RuleSet.propose { set with rules := rules } file context = proposalFromRule r file context) ∧
    ((∀ r ∈ set.rules, ruleMatches r file context = false) →
      RuleSet.propose { set with rules := rules } file context = none)

/-- The rule moves the file to where it already sits. A path without a name stays, too. -/
def Rule.InPlace (r : Rule) (file : FileEntry) : Prop :=
  ∃ moveTo ∈ r.action.moveTo, ∀ name ∈ fileName file.path,
    normalizeRelativePath file.path = normalizeRelativePath (moveTo ++ "/" ++ name)

instance (r : Rule) (file : FileEntry) : Decidable (r.InPlace file) :=
  inferInstanceAs (Decidable (∃ moveTo ∈ r.action.moveTo, ∀ name ∈ fileName file.path,
    normalizeRelativePath file.path = normalizeRelativePath (moveTo ++ "/" ++ name)))

variable {set : RuleSet} {file : FileEntry} {context : RuleContext} {r : Rule}

lemma proposalFromRule_of_not (h : ruleMatches r file context = false) :
    proposalFromRule r file context = none := by
  rw [proposalFromRule, h]
  rfl

/-- A rule that matches has nothing to propose exactly if the file is in its place. -/
lemma proposalFromRule_eq_none (ha : Accepted r.action)
    (h : ruleMatches r file context = true) :
    proposalFromRule r file context = none ↔ r.InPlace file := by
  unfold proposalFromRule Rule.InPlace
  rw [if_pos h]
  generalize r.action = a at ha
  cases ha with
  | move moveTo _ =>
    unfold moveProposalFromRule
    cases fileName file.path with
    | none => simp
    | some name => simp
  | trash => simp
  | createDir d _ => simp

/-! ### The order -/

lemma Rule.Before.trans {a b c : Rule} (h : a.Before b) (h' : b.Before c) : a.Before c := by
  rcases h with h | ⟨h, hid⟩
  · rcases h' with h' | ⟨h', -⟩
    · exact .inl (h.trans h')
    · exact .inl (h.trans_eq h')
  · rcases h' with h' | ⟨h', hid'⟩
    · exact .inl (h.trans_lt h')
    · exact .inr ⟨h.trans h', String.le_trans hid hid'⟩

lemma Rule.Before.total (a b : Rule) : a.Before b ∨ b.Before a := by
  rcases lt_trichotomy a.priority b.priority with h | h | h
  · exact .inl (.inl h)
  · exact (String.le_total a.id b.id).imp (fun hid => .inr ⟨h, hid⟩) fun hid => .inr ⟨h.symm, hid⟩
  · exact .inr (.inl h)

lemma Rule.Before.id_eq {a b : Rule} (h : a.Before b) (h' : b.Before a) : a.id = b.id := by
  rcases h with h | ⟨h, hid⟩
  · rcases h' with h' | ⟨h', -⟩
    · exact absurd (h.trans h') (lt_irrefl _)
    · exact absurd (h.trans_eq h') (lt_irrefl _)
  · rcases h' with h' | ⟨-, hid'⟩
    · exact absurd (h.trans_lt h') (lt_irrefl _)
    · exact String.le_antisymm hid hid'

lemma ordered_pairwise (set : RuleSet) : set.ordered.Pairwise Rule.Before := by
  have hsorted : set.ordered.Pairwise fun a b =>
      decide (a.priority < b.priority ∨ a.priority = b.priority ∧ a.id ≤ b.id) = true := by
    refine List.pairwise_mergeSort (fun a b c h h' => ?_) (fun a b => ?_) set.rules
    · simp only [decide_eq_true_eq] at h h' ⊢
      exact Rule.Before.trans h h'
    · simp only [Bool.or_eq_true, decide_eq_true_eq]
      exact Rule.Before.total a b
  exact hsorted.imp of_decide_eq_true

lemma mem_ordered {set : RuleSet} : r ∈ set.ordered ↔ r ∈ set.rules := List.mem_mergeSort

/-! ### What the rules propose together -/

lemma propose_eq_none : set.propose file context = none ↔
    ∀ r ∈ set.rules, proposalFromRule r file context = none := by
  unfold RuleSet.propose
  rw [List.findSome?_eq_none_iff]
  simp only [mem_ordered]

/-- A rule that wins and has something to propose is the first that has. -/
lemma propose_of_wins (hnodup : (set.rules.map Rule.id).Nodup) (hw : set.Wins file context r)
    {p : Proposal} (hp : proposalFromRule r file context = some p) :
    set.propose file context = some p := by
  obtain ⟨pre, post, hl, -⟩ := List.eq_append_cons_of_mem (mem_ordered.mpr hw.mem)
  have hsorted := ordered_pairwise set
  have hmem : ∀ r' ∈ pre, r' ∈ set.rules := fun r' hr' =>
    mem_ordered.mp (hl ▸ List.mem_append_left _ hr')
  rw [hl, List.pairwise_append] at hsorted
  have hpre : ∀ r' ∈ pre, ruleMatches r' file context = true → r' = r := by
    intro r' hr' hm
    have hid := Rule.Before.id_eq (hsorted.2.2 r' hr' r List.mem_cons_self)
      (hw.least r' (hmem r' hr') hm)
    exact List.inj_on_of_nodup_map hnodup (hmem r' hr') hw.mem hid
  unfold RuleSet.propose
  rw [hl, List.findSome?_append, List.findSome?_cons, hp]
  cases hfirst : pre.findSome? fun r => proposalFromRule r file context with
  | none => rfl
  | some p' =>
    obtain ⟨r', hr', hp'⟩ := List.exists_of_findSome?_eq_some hfirst
    cases hm : ruleMatches r' file context with
    | false =>
      rw [proposalFromRule_of_not hm] at hp'
      cases hp'
    | true =>
      obtain rfl := hpre r' hr' hm
      rw [hp] at hp'
      exact hp'.symm

lemma Wins.perm {rules : List Rule} (hperm : rules.Perm set.rules) (h : set.Wins file context r) :
    RuleSet.Wins { set with rules := rules } file context r :=
  ⟨hperm.mem_iff.mpr h.mem, h.applies, fun r' hr' => h.least r' (hperm.mem_iff.mp hr')⟩

/-- **The first match wins**, except where it moves the file to where it already sits and another
match does not. -/
theorem first_match_wins (set : RuleSet) (file : FileEntry) (context : RuleContext)
    (hset : set.validate = .ok ()) : set.FirstMatchWins file context ↔
      ∀ r, set.Wins file context r → r.InPlace file →
        ∀ r' ∈ set.rules, ruleMatches r' file context = true → r'.InPlace file := by
  obtain ⟨-, hvalid, hnodup⟩ := RuleSet.validate_iff.mp hset
  have hnone : ∀ r ∈ set.rules, ruleMatches r file context = true →
      (proposalFromRule r file context = none ↔ r.InPlace file) := fun r hr hm =>
    proposalFromRule_eq_none (accepted_of_validate (hvalid r hr)) hm
  constructor
  · intro h r hw hplace r' hr' hm
    have hfirst := (h set.rules (.refl _)).1 r hw
    rw [(hnone r hw.mem hw.applies).mpr hplace, propose_eq_none] at hfirst
    exact (hnone r' hr' hm).mp (hfirst r' hr')
  · intro h rules hperm
    refine ⟨fun r hw => ?_, fun hno => propose_eq_none.mpr fun r hr =>
      proposalFromRule_of_not (hno r (hperm.mem_iff.mp hr))⟩
    cases hp : proposalFromRule r file context with
    | some p =>
      exact propose_of_wins ((hperm.map Rule.id).nodup_iff.mpr hnodup) (Wins.perm hperm hw) hp
    | none =>
      -- the winner leaves the file where it is, and so do the others that match
      have hplace := (hnone r hw.mem hw.applies).mp hp
      refine propose_eq_none.mpr fun r' hr' => ?_
      have hr' := hperm.mem_iff.mp hr'
      cases hm : ruleMatches r' file context with
      | false => exact proposalFromRule_of_not hm
      | true => exact (hnone r' hr' hm).mpr (h r hw hplace r' hr' hm)

/-! ### Samples -/

/-- What is called secret goes to the vault, and every note to the documents. -/
def sampleRules : RuleSet :=
  ⟨1, [⟨"specific", 1, { nameStartsWith := some "secret" }, ⟨some "vault", false, none⟩⟩,
    ⟨"general", 5, { extensionIn := some ["md"] }, ⟨some "documents", false, none⟩⟩]⟩

def sampleFile (path : String) : FileEntry := ⟨path, 1, none, none, none⟩

lemma sampleRules_valid : sampleRules.validate = .ok () := by decide +kernel

theorem first_match_wins_sample : sampleRules.FirstMatchWins (sampleFile "inbox/secret.md") ⟨[], 0⟩ := by
  refine (first_match_wins _ _ _ sampleRules_valid).mpr fun r hw hplace => ?_
  have hmoved : ∀ r ∈ sampleRules.rules, ¬ r.InPlace (sampleFile "inbox/secret.md") := by
    decide +kernel
  exact absurd hplace (hmoved r hw.mem)

/-- In the vault the secret note is in its place, and so the second rule moves it out. -/
theorem not_first_match_wins : ¬ sampleRules.FirstMatchWins (sampleFile "vault/secret.md") ⟨[], 0⟩ := by
  intro h
  have hfirst : ∀ r ∈ sampleRules.rules.head?, r ∈ sampleRules.rules ∧
      ruleMatches r (sampleFile "vault/secret.md") ⟨[], 0⟩ = true ∧
      proposalFromRule r (sampleFile "vault/secret.md") ⟨[], 0⟩ = none ∧
      ∀ r' ∈ sampleRules.rules, r.priority < r'.priority ∨ r.priority = r'.priority ∧ r.id ≤ r'.id := by
    decide +kernel
  obtain ⟨hmem, hm, hnone, hleast⟩ := hfirst _ rfl
  have hw : sampleRules.Wins (sampleFile "vault/secret.md") ⟨[], 0⟩ _ :=
    ⟨hmem, hm, fun r' hr' _ => hleast r' hr'⟩
  have hsecond := (h sampleRules.rules (.refl _)).1 _ hw
  rw [hnone, propose_eq_none] at hsecond
  have hmoves : ∃ r ∈ sampleRules.rules,
      proposalFromRule r (sampleFile "vault/secret.md") ⟨[], 0⟩ ≠ none := by
    decide +kernel
  obtain ⟨r, hr, hr'⟩ := hmoves
  exact hr' (hsecond r hr)

end MouseKeeper.FileEngine
