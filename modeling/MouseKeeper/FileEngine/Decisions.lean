import Mathlib.Data.List.Dedup
import MouseKeeper.FileEngine.AutoApproval
import MouseKeeper.FileEngine.HonestProposals

/-!
What is decided about the proposals of a report.

A decision names a proposal by its id. The id is a fingerprint of the action and of the two paths
in lower case, and of the proposals with one id the report keeps the first.
-/

namespace MouseKeeper.FileEngine

open Posix

/-! ### What must hold -/

/-- What is done to what. -/
def Proposal.subject (p : Proposal) : ProposalAction × String × String :=
  (p.action, p.fromPath, p.toPath)

/-- The proposals that no decision names. -/
def undecided (report : ProposalReport) (decisions : List DecisionEntry) : List Proposal :=
  report.proposals.filter fun p => p.proposalId ∉ decisions.map (·.proposalId)

/-- Every proposal is approved, rejected or undecided, as the decision that names it says. -/
structure Settled (report : ProposalReport) (decisions : List DecisionEntry)
    (result : DecisionApplication) : Prop where
  parts : (result.approved.proposals ++ result.rejected.map (·.proposal) ++
    undecided report decisions).Perm report.proposals
  approved : ∀ p ∈ result.approved.proposals, ∃ d ∈ decisions,
    d.proposalId = p.proposalId ∧ d.decision = .approved
  rejected : ∀ r ∈ result.rejected, ∃ d ∈ decisions,
    d.proposalId = r.proposal.proposalId ∧ d.decision = .rejected ∧ rejectionReason d = some r.reason

/-- The report of the rules has what is proposed for each file under an id of its own, and every
proposal is decided by itself. -/
structure OneEach (scan : AnalyzeReport) (set : RuleSet) (now : ℕ) (report : ProposalReport) :
    Prop where
  complete : ∀ file ∈ scan.files, ∀ q ∈ set.propose file (scan.context now),
    ∃ p ∈ report.proposals, p.subject = q.subject
  ids : (report.proposals.map (·.proposalId)).Nodup
  settled : ∀ decisions result, applyDecisions report decisions = .ok result →
    Settled report decisions result

/-- What the decisions that reject make of a proposal. -/
def rejection (decisions : List DecisionEntry) (p : Proposal) : Option RejectedProposal :=
  ((rejectedById decisions).lookup p.proposalId).map fun reason => ⟨p, reason⟩

/-- What is proposed has an id that nothing else proposed has. -/
def OwnIds (scan : AnalyzeReport) (set : RuleSet) (now : ℕ) : Prop :=
  ∀ f ∈ scan.files, ∀ g ∈ scan.files, ∀ p ∈ set.propose f (scan.context now),
    ∀ q ∈ set.propose g (scan.context now),
      proposalId p.action p.fromPath p.toPath = proposalId q.action q.fromPath q.toPath →
        p.subject = q.subject

variable {os : Os} {s : Sys} {raw : RawPath} {scan : AnalyzeReport} {set : RuleSet}
  {file : FileEntry} {context : RuleContext} {r : Rule} {p : Proposal} {now : ℕ}
  {report : ProposalReport} {decisions : List DecisionEntry} {result : DecisionApplication}

/-! ### Ids -/

lemma id_of_proposalFromRule (h : proposalFromRule r file context = some p) :
    p.proposalId = proposalId p.action p.fromPath p.toPath := by
  unfold proposalFromRule at h
  split at h
  · split at h
    · unfold moveProposalFromRule at h
      split at h
      · cases h
      · obtain ⟨-, heq⟩ := Option.ite_none_left_eq_some.mp h
        rw [← Option.some.inj heq]
    · rw [← Option.some.inj h, trashProposalFromRule]
    · rw [← Option.some.inj h, createDirProposalFromRule]
    · cases h
  · cases h

lemma id_of_propose (h : set.propose file context = some p) :
    p.proposalId = proposalId p.action p.fromPath p.toPath := by
  obtain ⟨r, -, hr⟩ := List.exists_of_findSome?_eq_some h
  exact id_of_proposalFromRule hr

/-- Paths that differ in case only, or in the slashes, make one id. -/
lemma proposalId_congr {action : ProposalAction} {src src' dst dst' : String}
    (hs : normalizeRelativePath src = normalizeRelativePath src')
    (hd : normalizeRelativePath dst = normalizeRelativePath dst') :
    proposalId action src dst = proposalId action src' dst' := by
  rw [proposalId, proposalId, hs, hd]

section Unseen

variable {α β : Type} {key : α → String} {l : List α} {seen : List String}

lemma exists_keepUnseen {a : α} (ha : a ∈ l) (hs : key a ∉ seen) :
    ∃ b ∈ keepUnseen key seen l, key b = key a := by
  induction l generalizing seen with
  | nil => cases ha
  | cons c l ih =>
    unfold keepUnseen
    by_cases hc : key c = key a
    · rw [if_neg (hc ▸ hs)]
      exact ⟨c, List.mem_cons_self, hc⟩
    · have ha : a ∈ l := (List.mem_cons.mp ha).resolve_left fun h => hc (h ▸ rfl)
      split
      · exact ih ha hs
      · have hs' : key a ∉ key c :: seen := List.not_mem_cons_of_ne_of_not_mem (Ne.symm hc) hs
        obtain ⟨b, hb, hba⟩ := ih ha hs'
        exact ⟨b, List.mem_cons_of_mem c hb, hba⟩

lemma not_mem_of_mem_keepUnseen {a : α} (h : a ∈ keepUnseen key seen l) : key a ∉ seen := by
  obtain ⟨-, -, -, hs, -⟩ := mem_keepUnseen.mp h
  exact hs

lemma nodup_keepUnseen : ((keepUnseen key seen l).map key).Nodup := by
  induction l generalizing seen with
  | nil => exact List.nodup_nil
  | cons c l ih =>
    unfold keepUnseen
    split
    · exact ih
    · refine List.nodup_cons.mpr ⟨fun hc => ?_, ih⟩
      obtain ⟨b, hb, hbc⟩ := List.mem_map.mp hc
      exact not_mem_of_mem_keepUnseen hb (hbc ▸ List.mem_cons_self)

lemma mem_of_mem_keepUnseen {a : α} (h : a ∈ keepUnseen key seen l) : a ∈ l := by
  obtain ⟨pre, post, rfl, -⟩ := mem_keepUnseen.mp h
  exact List.mem_append_right _ List.mem_cons_self

/-- Everything has one of its kind among what is kept, exactly if a key tells the kind. -/
lemma keepUnseen_complete_iff {kind : α → β}
    (hkey : ∀ a ∈ l, ∀ b ∈ l, kind a = kind b → key a = key b) :
    (∀ a ∈ l, ∃ b ∈ keepUnseen key [] l, kind b = kind a) ↔
      ∀ a ∈ l, ∀ b ∈ l, key a = key b → kind a = kind b := by
  constructor
  · intro h a ha b hb hab
    obtain ⟨a', ha', hka⟩ := h a ha
    obtain ⟨b', hb', hkb⟩ := h b hb
    have hkeys : key a' = key b' :=
      (hkey a' (mem_of_mem_keepUnseen ha') a ha hka).trans
        (hab.trans (hkey b' (mem_of_mem_keepUnseen hb') b hb hkb).symm)
    have heq : a' = b' := List.inj_on_of_nodup_map nodup_keepUnseen ha' hb' hkeys
    rw [← hka, ← hkb, heq]
  · intro h a ha
    obtain ⟨b, hb, hkb⟩ : ∃ b ∈ keepUnseen key [] l, key b = key a :=
      exists_keepUnseen ha List.not_mem_nil
    exact ⟨b, hb, h b (mem_of_mem_keepUnseen hb) a ha hkb⟩

end Unseen

/-! ### Decisions -/

lemma mem_approvedIds {id : String} : id ∈ approvedIds decisions ↔
    ∃ d ∈ decisions, d.proposalId = id ∧ d.decision = .approved := by
  simp [approvedIds]
  grind

lemma mem_rejectedById {x : String × String} : x ∈ rejectedById decisions ↔
    ∃ d ∈ decisions, d.decision = .rejected ∧ d.proposalId = x.1 ∧ rejectionReason d = some x.2 := by
  obtain ⟨id, reason⟩ := x
  simp [rejectedById]
  grind

lemma rejection_eq_some {x : RejectedProposal} (h : rejection decisions p = some x) :
    x.proposal = p ∧ ∃ d ∈ decisions, d.proposalId = p.proposalId ∧ d.decision = .rejected ∧
      rejectionReason d = some x.reason := by
  obtain ⟨reason, hreason, rfl⟩ := Option.map_eq_some_iff.mp h
  obtain ⟨pre, post, hsplit, -⟩ := List.lookup_eq_some_iff.mp hreason
  have hmem : (p.proposalId, reason) ∈ rejectedById decisions := by simp [hsplit]
  obtain ⟨d, hd, hrej, hid, hr⟩ := mem_rejectedById.mp hmem
  exact ⟨rfl, d, hd, hid, hrej, hr⟩

/-- A proposal that is not approved is rejected exactly if a decision names it. -/
lemma rejection_isSome (hcheck : ∀ d ∈ decisions, d.decision = .rejected →
    rejectionReason d ≠ none) (ha : p.proposalId ∉ approvedIds decisions) :
    (rejection decisions p).isSome = true ↔ p.proposalId ∈ decisions.map (·.proposalId) := by
  constructor
  · intro h
    obtain ⟨x, hx⟩ := Option.isSome_iff_exists.mp h
    obtain ⟨-, d, hd, hid, -⟩ := rejection_eq_some hx
    exact List.mem_map.mpr ⟨d, hd, hid⟩
  · intro h
    obtain ⟨d, hd, hid⟩ := List.mem_map.mp h
    have hrej : d.decision = .rejected := by
      cases hdec : d.decision with
      | approved => exact absurd (mem_approvedIds.mpr ⟨d, hd, hid, hdec⟩) ha
      | rejected => rfl
    obtain ⟨reason, hreason⟩ := Option.ne_none_iff_exists'.mp (hcheck d hd hrej)
    have hmem : (p.proposalId, reason) ∈ rejectedById decisions :=
      mem_rejectedById.mpr ⟨d, hd, hrej, hid, hreason⟩
    have hlookup : ((rejectedById decisions).lookup p.proposalId).isSome = true := by
      rw [List.lookup_isSome_iff]
      exact ⟨_, hmem, beq_self_eq_true _⟩
    simp [rejection, hlookup]

lemma map_filterMap_eq_filter {α β : Type} {f : α → Option β} {g : β → α} {l : List α}
    (h : ∀ a b, f a = some b → g b = a) : (l.filterMap f).map g = l.filter fun a => (f a).isSome := by
  induction l with
  | nil => rfl
  | cons a l ih =>
    cases hf : f a with
    | none => rw [List.filterMap_cons_none hf, List.filter_cons_of_neg (by simp [hf]), ih]
    | some b =>
      rw [List.filterMap_cons_some hf, List.filter_cons_of_pos (by simp [hf]), List.map_cons, ih,
        h a b hf]

lemma settled_of_applyDecisions (h : applyDecisions report decisions = .ok result) :
    Settled report decisions result := by
  obtain ⟨_, hok, hres⟩ := bind_eq_ok.mp h
  have hcheck : ∀ d ∈ decisions, d.decision = .rejected → rejectionReason d ≠ none :=
    fun d hd => ((checkDecisions_eq_ok.mp hok).1 d hd).2.2
  obtain rfl := Except.ok.inj hres
  refine ⟨?_, fun p hp => ?_, fun x hx => ?_⟩
  · have hrejected : ((report.proposals.filter (·.proposalId ∉ approvedIds decisions)).filterMap
        (rejection decisions)).map (·.proposal) =
        (report.proposals.filter (·.proposalId ∉ approvedIds decisions)).filter
          fun p => p.proposalId ∈ decisions.map (·.proposalId) := by
      rw [map_filterMap_eq_filter fun p x hx => (rejection_eq_some hx).1]
      refine List.filter_congr fun p hp => ?_
      rw [Bool.eq_iff_iff, decide_eq_true_eq]
      exact rejection_isSome hcheck (by simpa using (List.mem_filter.mp hp).2)
    have hopen : undecided report decisions =
        (report.proposals.filter (·.proposalId ∉ approvedIds decisions)).filter
          fun p => !decide (p.proposalId ∈ decisions.map (·.proposalId)) := by
      rw [undecided, List.filter_filter]
      refine List.filter_congr fun p _ => ?_
      have hsub : p.proposalId ∈ approvedIds decisions →
          p.proposalId ∈ decisions.map (·.proposalId) := fun ha => by
        obtain ⟨d, hd, hid, -⟩ := mem_approvedIds.mp ha
        exact List.mem_map.mpr ⟨d, hd, hid⟩
      by_cases ha : p.proposalId ∈ decisions.map (·.proposalId)
      · simp [ha]
      · simp [ha, mt hsub ha]
    rw [hopen, List.append_assoc]
    refine (((List.Perm.of_eq hrejected).append_right _).append_left _).trans ?_
    refine ((List.filter_append_perm _ _).append_left _).trans ?_
    simpa only [decide_not] using
      List.filter_append_perm (fun p : Proposal => p.proposalId ∈ approvedIds decisions)
        report.proposals
  · exact mem_approvedIds.mp (by simpa using (List.mem_filter.mp hp).2)
  · obtain ⟨p, -, hp⟩ := List.mem_filterMap.mp hx
    obtain ⟨rfl, hd⟩ := rejection_eq_some hp
    exact hd

/-! ### All together -/

/-- What the rules propose for the files, in their order. -/
def proposed (scan : AnalyzeReport) (set : RuleSet) (now : ℕ) : List Proposal :=
  scan.files.filterMap fun f => set.propose f (scan.context now)

lemma mem_proposed : p ∈ proposed scan set now ↔
    ∃ f ∈ scan.files, set.propose f (scan.context now) = some p :=
  List.mem_filterMap

lemma id_of_mem_proposed (h : p ∈ proposed scan set now) :
    p.proposalId = proposalId p.action p.fromPath p.toPath := by
  obtain ⟨f, -, hf⟩ := mem_proposed.mp h
  exact id_of_propose hf

lemma proposals_eq (h : proposeForAnalysisWithRuleSet now scan set = .ok report) :
    report.proposals = keepUnseen (·.proposalId) [] (proposed scan set now) := by
  obtain ⟨_, -, hreport⟩ := bind_eq_ok.mp h
  rw [← Except.ok.inj hreport]
  rfl

lemma complete_iff (h : proposeForAnalysisWithRuleSet now scan set = .ok report) :
    (∀ file ∈ scan.files, ∀ q ∈ set.propose file (scan.context now),
      ∃ p ∈ report.proposals, p.subject = q.subject) ↔ OwnIds scan set now := by
  have hkey : ∀ p ∈ proposed scan set now, ∀ q ∈ proposed scan set now,
      p.subject = q.subject → p.proposalId = q.proposalId := by
    intro p hp q hq hpq
    obtain ⟨ha, hpaths⟩ := Prod.mk.inj hpq
    obtain ⟨hf, ht⟩ := Prod.mk.inj hpaths
    rw [id_of_mem_proposed hp, id_of_mem_proposed hq, ha, hf, ht]
  have hall := keepUnseen_complete_iff hkey
  rw [proposals_eq h]
  constructor
  · intro hcomplete f hf g hg p hp q hq hpq
    have hpm := mem_proposed.mpr ⟨f, hf, hp⟩
    have hqm := mem_proposed.mpr ⟨g, hg, hq⟩
    rw [← id_of_mem_proposed hpm, ← id_of_mem_proposed hqm] at hpq
    refine hall.mp (fun a ha => ?_) p hpm q hqm hpq
    obtain ⟨f, hf, ha⟩ := mem_proposed.mp ha
    exact hcomplete f hf a ha
  · intro hown f hf q hq
    refine hall.mpr (fun a ha b hb hab => ?_) q (mem_proposed.mpr ⟨f, hf, hq⟩)
    rw [id_of_mem_proposed ha, id_of_mem_proposed hb] at hab
    obtain ⟨f, hf, ha⟩ := mem_proposed.mp ha
    obtain ⟨g, hg, hb⟩ := mem_proposed.mp hb
    exact hown f hf g hg a ha b hb hab

/-- **One approval approves one thing**, exactly if no two things that the rules propose share an
id. -/
theorem one_each_iff (h : proposeForAnalysisWithRuleSet now scan set = .ok report) :
    OneEach scan set now report ↔ OwnIds scan set now := by
  rw [← complete_iff h]
  refine ⟨fun hone => hone.complete, fun hcomplete => ⟨hcomplete, ?_, fun _ _ =>
    settled_of_applyDecisions⟩⟩
  rw [proposals_eq h]
  exact nodup_keepUnseen

/-! ### Samples -/

def trashFiles : RuleSet :=
  ⟨1, [⟨"all", 1, { fileKind := some .file }, ⟨none, true, none⟩⟩]⟩

theorem one_each_iff_sample : ∃ report,
    proposeForAnalysisWithRuleSet 0 tidyScan trashFiles = .ok report ∧
      OneEach tidyScan trashFiles 0 report := by
  have hvalid : trashFiles.validate = .ok () := by decide +kernel
  have hreport : proposeForAnalysisWithRuleSet 0 tidyScan trashFiles = .ok
      ⟨tidyScan.root, keepUnseen (·.proposalId) [] (proposed tidyScan trashFiles 0)⟩ := by
    rw [proposeForAnalysisWithRuleSet, hvalid]
    rfl
  refine ⟨_, hreport, (one_each_iff hreport).mpr fun f hf g hg p hp q hq _ => ?_⟩
  obtain rfl := List.mem_singleton.mp hf
  obtain rfl := List.mem_singleton.mp hg
  rw [Option.mem_unique hp hq]

def upperName : Name := ⟨"A", by decide⟩

def lowerName : Name := ⟨"a", by decide⟩

/-- Two files whose names differ in case. -/
def twins : Sys := .fresh [([workName], .dir 1), ([workName, lowerName], .file [] (some 0) 3),
  ([workName, upperName], .file [] (some 0) 2)]

def upper : FileEntry := ⟨"A", 0, some 0, none, some "unix:d0000000000000000:i0000000000000002"⟩

def lower : FileEntry := ⟨"a", 0, some 0, none, some "unix:d0000000000000000:i0000000000000003"⟩

def twinsScan : AnalyzeReport := ⟨"/work", [upper, lower], [], []⟩

lemma analyze_twins : analyzeRoot .still twins (Path.raw [workName]) = .ok twinsScan := by
  have hnew : PathGuard.new twins.tree (Path.raw [workName]) = .ok ⟨[workName]⟩ :=
    new_root (by decide +kernel)
  have hroot : twins.tree.listDir ([workName] ++ []) = [upperName, lowerName] := by decide +kernel
  have hupper : twins.tree.get ([workName] ++ [] ++ [upperName]) = some (.file [] (some 0) 2) := by
    decide +kernel
  have hlower : twins.tree.get ([workName] ++ [] ++ [lowerName]) = some (.file [] (some 0) 3) := by
    decide +kernel
  have hupperId : fileIdForPath .still twins ([workName] ++ [] ++ [upperName]) = upper.fileId := by
    decide +kernel
  have hlowerId : fileIdForPath .still twins ([workName] ++ [] ++ [lowerName]) = lower.fileId := by
    decide +kernel
  have hupperText : Path.text ([] ++ [upperName]) = "A" := by decide +kernel
  have hlowerText : Path.text ([] ++ [lowerName]) = "a" := by decide +kernel
  have hupperIn : isMousekeeperInternalDir upperName.1 = false := by decide +kernel
  have hlowerIn : isMousekeeperInternalDir lowerName.1 = false := by decide +kernel
  have hfound : collectFiles .still twins [workName] [] = ⟨[upper, lower], [], []⟩ := by
    rw [collectFiles_eq, hroot, List.foldl_cons, List.foldl_cons, List.foldl_nil, hupperIn,
      hlowerIn, hupper, hlower, hupperId, hlowerId, hupperText, hlowerText]
    rfl
  have hsorted : [upper, lower].mergeSort (fun a b => a.path ≤ b.path) = [upper, lower] :=
    List.mergeSort_of_pairwise (by decide +kernel)
  unfold analyzeRoot
  rw [hnew]
  simp only [Except.mapError, bind, Except.bind, hfound, hsorted]
  decide +kernel

/-- Of two files whose names differ in case only one is in the report. -/
theorem not_one_each : ¬ ∀ (os : Os) (s : Sys) (raw : RawPath) (scan : AnalyzeReport)
    (set : RuleSet) (now : ℕ) (report : ProposalReport), analyzeRoot os s raw = .ok scan →
      proposeForAnalysisWithRuleSet now scan set = .ok report → OneEach scan set now report := by
  intro h
  have hvalid : trashFiles.validate = .ok () := by decide +kernel
  have hreport : proposeForAnalysisWithRuleSet 0 twinsScan trashFiles = .ok
      ⟨twinsScan.root, keepUnseen (·.proposalId) [] (proposed twinsScan trashFiles 0)⟩ := by
    rw [proposeForAnalysisWithRuleSet, hvalid]
    rfl
  have hown := (complete_iff hreport).mp (h _ _ _ _ _ 0 _ analyze_twins hreport).complete
  have hproposes : ∀ f ∈ twinsScan.files, trashFiles.propose f (twinsScan.context 0) =
      some (trashProposalFromRule ⟨"all", 1, { fileKind := some .file }, ⟨none, true, none⟩⟩ f) := by
    rintro f hf
    have hrule : proposalFromRule ⟨"all", 1, { fileKind := some .file }, ⟨none, true, none⟩⟩ f
        (twinsScan.context 0) = some (trashProposalFromRule
          ⟨"all", 1, { fileKind := some .file }, ⟨none, true, none⟩⟩ f) := rfl
    have hordered : trashFiles.ordered = trashFiles.rules := List.mergeSort_singleton _
    rw [RuleSet.propose, hordered, trashFiles, List.findSome?_cons, hrule]
  have hsame := hown upper (by simp [twinsScan]) lower (by simp [twinsScan]) _
    (hproposes upper (by simp [twinsScan])) _ (hproposes lower (by simp [twinsScan]))
    (proposalId_congr (by decide +kernel) (by decide +kernel))
  have hpaths : upper.path = lower.path := (Prod.mk.inj (Prod.mk.inj hsame).2).1
  exact absurd hpaths (by decide)

end MouseKeeper.FileEngine
