import Mathlib.Data.List.Find
import MouseKeeper.FileEngine.FirstMatch

/-!
Where the proposals of the rules lead.

The rules compare paths as texts in lower case, with slashes for backslashes. The text of a
destination comes from the rule, and a text with a doubled slash, a slash at its end or a dot
between two slashes denotes a place that the scan writes otherwise.
-/

namespace MouseKeeper.FileEngine

open Posix

/-- The place that a relative path denotes, without empty segments and dots. -/
def place (path : String) : RawPath := (segsOf path).filter fun x => !x.isTrivial

/-- The path is written as the scan writes it. -/
def Plain (path : String) : Prop := joinComponents (place path) = path

instance (path : String) : Decidable (Plain path) :=
  inferInstanceAs (Decidable (joinComponents (place path) = path))

/-- The places of the files and the directories. -/
def AnalyzeReport.places (scan : AnalyzeReport) : List RawPath :=
  scan.files.map (place ·.path) ++ scan.directories.map place

/-- The proposal does not move the file to its own place, and what it calls ready is free. -/
structure Proposal.Honest (scan : AnalyzeReport) (file : FileEntry) (p : Proposal) : Prop where
  moves : p.action = .move → place p.toPath ≠ place file.path
  free : p.action = .move ∨ p.action = .createDir → p.status = .ready → place p.toPath ∉ scan.places

/-- The first rule that matches and has something to do. -/
def RuleSet.decides (set : RuleSet) (file : FileEntry) (context : RuleContext) : Option Rule :=
  set.ordered.find? fun r => ruleMatches r file context && !decide (r.InPlace file)

/-- The destination of the rule for the file. -/
def Rule.target (r : Rule) (file : FileEntry) : Option String :=
  match r.action.moveTo with
  | some moveTo => (fileName file.path).map fun name => moveTo ++ "/" ++ name
  | none => r.action.createDir

/-- The destination is written plainly, or nothing is at its place, or the paths of the scan have
its text among them although it is not the path of the file. -/
inductive WellNamed (scan : AnalyzeReport) (context : RuleContext) (file : FileEntry) (r : Rule)
    (target : String) : Prop
  | plain (h : Plain target)
  | free (h : place target ∉ scan.places)
  | listed (h : normalizeRelativePath target ∈ context.existingPaths)
    (hne : r.action.moveTo.isSome → place target ≠ place file.path)

variable {os : Os} {s : Sys} {raw : RawPath} {scan : AnalyzeReport} {set : RuleSet}
  {file : FileEntry} {context : RuleContext} {r : Rule} {p : Proposal} {q : Path} {now : ℕ}

/-! ### Plain paths -/

lemma place_text (hq : q ≠ []) : place q.text = q.raw := by
  rw [place, segsOf_text hq, List.filter_eq_self]
  intro x hx
  obtain ⟨n, -, rfl⟩ := List.mem_map.mp hx
  rfl

lemma joinComponents_raw (q : Path) : joinComponents q.raw = q.text := by
  rw [joinComponents, Path.raw, List.map_map]
  rfl

lemma plain_text (hq : q ≠ []) : Plain q.text := by
  rw [Plain, place_text hq, joinComponents_raw]

/-- What is written plainly is known by its place. -/
lemma Plain.eq {a b : String} (ha : Plain a) (hb : Plain b) (h : place a = place b) : a = b := by
  rw [← ha, ← hb, h]

/-! ### Scans -/

lemma plain_of_mem_files (hscan : analyzeRoot os s raw = .ok scan) (hf : file ∈ scan.files) :
    Plain file.path := by
  obtain ⟨q, hq, hpath, -⟩ := scanned_of_analyze hscan file hf
  rw [hpath]
  exact plain_text hq

lemma fileName_of_mem_files (hscan : analyzeRoot os s raw = .ok scan) (hf : file ∈ scan.files) :
    ∃ name, fileName file.path = some name := by
  obtain ⟨q, hq, hpath, -⟩ := scanned_of_analyze hscan file hf
  rw [List.nil_append] at hpath
  rw [hpath, fileName, segsOf_text hq, fileName_raw, List.getLast?_eq_getLast_of_ne_nil hq]
  exact ⟨_, rfl⟩

lemma place_mem_places (hf : file ∈ scan.files) : place file.path ∈ scan.places :=
  List.mem_append_left _ (List.mem_map_of_mem hf)

/-- What is at a place of the scan is listed by its plain path. -/
lemma exists_listed (now : ℕ) (hscan : analyzeRoot os s raw = .ok scan) {target : String}
    (h : place target ∈ scan.places) : ∃ path, Plain path ∧ place target = place path ∧
      normalizeRelativePath path ∈ (scan.context now).existingPaths := by
  rcases List.mem_append.mp h with h | h
  · obtain ⟨f, hf, hp⟩ := List.mem_map.mp h
    exact ⟨f.path, plain_of_mem_files hscan hf, hp.symm,
      List.mem_append_left _ (List.mem_map_of_mem hf)⟩
  · obtain ⟨d, hd, hp⟩ := List.mem_map.mp h
    obtain ⟨q, hq, rfl⟩ := directories_of_analyze hscan d hd
    exact ⟨q.text, plain_text hq, hp.symm, List.mem_append_right _ (List.mem_map_of_mem hd)⟩

/-! ### The rule that decides -/

lemma findSome?_eq_find?_bind {α β : Type} (f : α → Option β) (l : List α) :
    l.findSome? f = (l.find? fun a => (f a).isSome).bind f := by
  induction l with
  | nil => rfl
  | cons a l ih =>
    rw [List.findSome?_cons, List.find?_cons]
    cases hfa : f a with
    | none => exact ih
    | some b => exact hfa.symm

lemma propose_eq_decides (hset : set.validate = .ok ()) :
    set.propose file context =
      (set.decides file context).bind (proposalFromRule · file context) := by
  obtain ⟨-, hvalid, -⟩ := RuleSet.validate_iff.mp hset
  have hsome : ∀ r ∈ set.ordered, (proposalFromRule r file context).isSome =
      (ruleMatches r file context && !decide (r.InPlace file)) := by
    intro r hr
    cases hm : ruleMatches r file context with
    | false => rw [proposalFromRule_of_not hm]; rfl
    | true =>
      have hnone := proposalFromRule_eq_none
        (accepted_of_validate (hvalid r (mem_ordered.mp hr))) hm
      rw [Bool.true_and, Bool.eq_iff_iff, Bool.not_eq_true', decide_eq_false_iff_not, ← hnone]
      exact Option.isSome_iff_ne_none
  rw [RuleSet.propose, findSome?_eq_find?_bind, List.find?_congr hsome, RuleSet.decides]

lemma decides_spec (h : set.decides file context = some r) :
    r ∈ set.rules ∧ ruleMatches r file context = true ∧ ¬ r.InPlace file := by
  have hr := List.find?_some h
  rw [Bool.and_eq_true, Bool.not_eq_true', decide_eq_false_iff_not] at hr
  exact ⟨mem_ordered.mp (List.mem_of_find?_eq_some h), hr⟩

/-! ### Destinations -/

lemma statusOf_eq_ready {target : String} : statusOf context target = .ready ↔
    normalizeRelativePath target ∉ context.existingPaths := by
  unfold statusOf
  split_ifs with h <;> simp [h]

/-- What is written plainly and called ready is free. -/
lemma WellNamed.not_mem_places (hscan : analyzeRoot os s raw = .ok scan) {target : String}
    (h : WellNamed scan (scan.context now) file r target)
    (hready : statusOf (scan.context now) target = .ready) : place target ∉ scan.places := by
  rw [statusOf_eq_ready] at hready
  cases h with
  | plain h =>
    intro hmem
    obtain ⟨path, hpath, hplace, hlisted⟩ := exists_listed now hscan hmem
    rw [← h.eq hpath hplace] at hlisted
    exact hready hlisted
  | free h => exact h
  | listed h _ => exact absurd h hready

lemma wellNamed_of_not {target : String}
    (hmoves : r.action.moveTo.isSome → place target ≠ place file.path)
    (hfree : statusOf context target = .ready → place target ∉ scan.places) :
    WellNamed scan context file r target := by
  by_cases h : normalizeRelativePath target ∈ context.existingPaths
  · exact .listed h hmoves
  · exact .free (hfree (statusOf_eq_ready.mpr h))

lemma honest_iff_move (hscan : analyzeRoot os s raw = .ok scan) (hf : file ∈ scan.files)
    {moveTo name : String} (hname : fileName file.path = some name)
    (hm : r.action.moveTo = some moveTo) (hplace : ¬ r.InPlace file) :
    (∀ p, moveProposalFromRule r file (scan.context now) moveTo = some p → p.Honest scan file) ↔
      WellNamed scan (scan.context now) file r (moveTo ++ "/" ++ name) := by
  have hne : normalizeRelativePath file.path ≠ normalizeRelativePath (moveTo ++ "/" ++ name) := by
    intro heq
    refine hplace ⟨moveTo, hm, fun n hn => ?_⟩
    rw [hname] at hn
    rw [← Option.some.inj hn]
    exact heq
  unfold moveProposalFromRule
  rw [hname]
  dsimp only
  rw [if_neg hne]
  constructor
  · intro h
    obtain ⟨hmoves, hfree⟩ := h _ rfl
    exact wellNamed_of_not (fun _ => hmoves rfl) (hfree (.inl rfl))
  · rintro h _ ⟨⟩
    refine ⟨fun _ heq => ?_, fun _ hready => h.not_mem_places hscan hready⟩
    cases h with
    | plain h => exact hne (congrArg _ (h.eq (plain_of_mem_files hscan hf) heq).symm)
    | free h => exact h (heq ▸ place_mem_places hf)
    | listed _ h => exact h (by rw [hm]; rfl) heq

lemma honest_iff_createDir (hscan : analyzeRoot os s raw = .ok scan) (file : FileEntry) (dir : String)
    (hm : r.action.moveTo = none) :
    (createDirProposalFromRule r (scan.context now) dir).Honest scan file ↔
      WellNamed scan (scan.context now) file r dir := by
  constructor
  · intro h
    exact wellNamed_of_not (fun hsome => by rw [hm] at hsome; cases hsome) (h.free (.inr rfl))
  · intro h
    exact ⟨nofun, fun _ hready => h.not_mem_places hscan hready⟩

/-- What a rule that decides proposes. -/
lemma honest_iff (hscan : analyzeRoot os s raw = .ok scan) (hf : file ∈ scan.files)
    (ha : Accepted r.action) (hm : ruleMatches r file (scan.context now) = true)
    (hplace : ¬ r.InPlace file) :
    (∀ p, proposalFromRule r file (scan.context now) = some p → p.Honest scan file) ↔
      ∀ target ∈ r.target file, WellNamed scan (scan.context now) file r target := by
  obtain ⟨name, hname⟩ := fileName_of_mem_files hscan hf
  rw [proposalFromRule, if_pos hm, Rule.target]
  generalize haction : r.action = action at ha
  cases ha with
  | trash =>
    refine iff_of_true (fun p hp => ?_) fun target ht => by cases ht
    cases hp
    constructor
    · rintro ⟨⟩
    · rintro (h | h) <;> cases h
  | move moveTo _ =>
    have hto : r.action.moveTo = some moveTo := by rw [haction]
    refine (honest_iff_move hscan hf hname hto hplace).trans ?_
    rw [hname]
    exact ⟨by rintro h _ ⟨⟩; exact h, fun h => h _ rfl⟩
  | createDir dir _ =>
    have hto : r.action.moveTo = none := by rw [haction]
    have hiff : (createDirProposalFromRule r (scan.context now) dir).Honest scan file ↔
        WellNamed scan (scan.context now) file r dir := honest_iff_createDir hscan file dir hto
    constructor
    · rintro h _ ⟨⟩
      exact hiff.mp (h _ rfl)
    · rintro h _ ⟨⟩
      exact hiff.mpr (h _ rfl)

/-- **Proposals lead to free places other than the file's own**, exactly where the rule that decides
names its destination well. -/
theorem honest_proposals (hset : set.validate = .ok ()) (hscan : analyzeRoot os s raw = .ok scan)
    (now : ℕ) (hf : file ∈ scan.files) :
    (∀ p, set.propose file (scan.context now) = some p → p.Honest scan file) ↔
      ∀ r ∈ set.decides file (scan.context now), ∀ target ∈ r.target file,
        WellNamed scan (scan.context now) file r target := by
  obtain ⟨-, hvalid, -⟩ := RuleSet.validate_iff.mp hset
  rw [propose_eq_decides hset]
  cases hd : set.decides file (scan.context now) with
  | none =>
    rw [Option.bind_none]
    exact iff_of_true (fun p hp => absurd hp.symm (Option.some_ne_none p)) fun r hr =>
      absurd hr (Option.not_mem_none r)
  | some r =>
    obtain ⟨hr, hm, hplace⟩ := decides_spec hd
    rw [Option.bind_some, honest_iff hscan hf (accepted_of_validate (hvalid r hr)) hm hplace]
    constructor
    · intro h r' hr'
      rw [← Option.some.inj hr']
      exact h
    · intro h
      exact h r rfl

/-! ### Samples -/

def workName : Name := ⟨"work", validName_work⟩

def docsName : Name := ⟨"docs", validName_docs⟩

def billName : Name := ⟨"bill", by decide⟩

/-- One file, which already is where it belongs. -/
def tidy : Sys := .fresh [([workName], .dir 1), ([workName, docsName], .dir 2),
  ([workName, docsName, billName], .file [] (some 0) 3)]

def bill : FileEntry :=
  ⟨"docs/bill", 0, some 0, none, some "unix:d0000000000000000:i0000000000000003"⟩

def tidyScan : AnalyzeReport := ⟨"/work", [bill], ["docs"], []⟩

/-- Bills go to the given directory. -/
def billsTo (dir : String) : RuleSet :=
  ⟨1, [⟨"bills", 1, { nameStartsWith := some "bill" }, ⟨some dir, false, none⟩⟩]⟩

lemma analyze_tidy : analyzeRoot .still tidy (Path.raw [workName]) = .ok tidyScan := by
  have hnew : PathGuard.new tidy.tree (Path.raw [workName]) = .ok ⟨[workName]⟩ :=
    new_root (by decide +kernel)
  have hroot : tidy.tree.listDir ([workName] ++ []) = [docsName] := by decide +kernel
  have hdocs : tidy.tree.listDir ([workName] ++ [docsName]) = [billName] := by decide +kernel
  have hdir : tidy.tree.get ([workName] ++ [] ++ [docsName]) = some (.dir 2) := by decide +kernel
  have hfile : tidy.tree.get ([workName] ++ [docsName] ++ [billName]) =
    some (.file [] (some 0) 3) := by decide +kernel
  have hid : fileIdForPath .still tidy ([workName] ++ [docsName] ++ [billName]) = bill.fileId := by
    decide +kernel
  have hdocsText : Path.text ([] ++ [docsName]) = "docs" := by decide +kernel
  have hbillText : Path.text ([docsName] ++ [billName]) = "docs/bill" := by decide +kernel
  have hdocsIn : isMousekeeperInternalDir docsName.1 = false := by decide +kernel
  have hbillIn : isMousekeeperInternalDir billName.1 = false := by decide +kernel
  have hinner : collectFiles .still tidy [workName] [docsName] = ⟨[bill], [], []⟩ := by
    rw [collectFiles_eq, hdocs, List.foldl_cons, List.foldl_nil, hbillIn, hfile, hid, hbillText]
    rfl
  have hfound : collectFiles .still tidy [workName] [] = ⟨[bill], ["docs"], []⟩ := by
    rw [collectFiles_eq, hroot, List.foldl_cons, List.foldl_nil, hdocsIn, hdir, hdocsText,
      List.nil_append, hinner]
    rfl
  unfold analyzeRoot
  rw [hnew]
  simp only [Except.mapError, bind, Except.bind, hfound]
  decide +kernel

/-- Bills are paid: there is a proposal, for a place that is free. -/
theorem honest_proposals_tidy : ∃ p,
    (billsTo "paid").propose bill (tidyScan.context 0) = some p ∧ p.Honest tidyScan bill := by
  have hset : (billsTo "paid").validate = .ok () := by decide +kernel
  have hsome : ((billsTo "paid").propose bill (tidyScan.context 0)).isSome = true := by
    decide +kernel
  have htarget : ∀ r ∈ (billsTo "paid").rules, r.target bill = some "paid/bill" := by
    decide +kernel
  have hplain : Plain "paid/bill" := by decide +kernel
  obtain ⟨p, hp⟩ := Option.isSome_iff_exists.mp hsome
  refine ⟨p, hp, (honest_proposals hset analyze_tidy 0 (by decide)).mpr (fun r hr t ht => ?_) p hp⟩
  rw [htarget r (decides_spec hr).1] at ht
  rw [← Option.some.inj ht]
  exact .plain hplain

/-- A slash at the end, and the file is to be moved to its own place. -/
theorem not_honest_proposals : ¬ ∀ (os : Os) (s : Sys) (raw : RawPath) (scan : AnalyzeReport)
    (set : RuleSet) (now : ℕ), set.validate = .ok () → analyzeRoot os s raw = .ok scan →
      ∀ file ∈ scan.files, ∀ p, set.propose file (scan.context now) = some p →
        p.Honest scan file := by
  intro h
  have hp : ((billsTo "docs/").propose bill (tidyScan.context 0)).map
      (fun p => (p.action, p.toPath, p.status)) = some (.move, "docs//bill", .ready) := by
    decide +kernel
  obtain ⟨p, hp, heq⟩ := Option.map_eq_some_iff.mp hp
  simp only [Prod.mk.injEq] at heq
  have hmoves := (h _ _ _ _ (billsTo "docs/") 0 (by decide +kernel) analyze_tidy bill (by decide)
    p hp).moves heq.1
  rw [heq.2.1] at hmoves
  exact hmoves (by decide +kernel)

end MouseKeeper.FileEngine
