import MouseKeeper.Desktop.Builders

/-!
When delegated work leaves the engine's own directories alone.

The scan never lists what lies in them, but no builder and no check of a rule asks for them: a
proposal reaches them as soon as a path of the payload, or the directory of the rule that wins
on a scanned file, begins there.
-/

namespace MouseKeeper.Desktop.Builders

open MouseKeeper.FileEngine Posix

/-- A relative path that is one of the engine's own directories, or lies in one. -/
def inInternal (path : String) : Bool :=
  match (segsOf path).filter fun x => !x.isTrivial with
  | .name n :: _ => isMousekeeperInternalDir n.1
  | _ => false

/-- A proposal that leaves the engine's own directories alone. -/
structure OutOfReach (p : Proposal) : Prop where
  source : inInternal p.fromPath = false
  destination : inInternal p.toPath = true → p.action = .trash ∧ p.toPath = TRASH_DIR

/-! ### Paths -/

lemma inInternal_cons {path : String} {n : Name} {l : List Seg}
    (h : segsOf path = .name n :: l) : inInternal path = isMousekeeperInternalDir n.1 := by
  rw [inInternal, h]
  rfl

lemma inInternal_text (n : Name) (p : Path) :
    inInternal (Path.text (n :: p)) = isMousekeeperInternalDir n.1 :=
  inInternal_cons (segsOf_text (List.cons_ne_nil n p))

lemma inInternal_name (n : Name) : inInternal n.1 = isMousekeeperInternalDir n.1 :=
  inInternal_cons (segsOf_name n)

lemma inInternal_first {p : Path} (hp : p ≠ []) :
    inInternal p.text = isMousekeeperInternalDir (firstSegment p.text) := by
  obtain ⟨n, l, rfl⟩ := List.exists_cons_of_ne_nil hp
  rw [inInternal_text, firstSegment_text]

lemma inInternal_empty : inInternal "" = false := by decide

/-- A path in a directory is where the directory is. -/
lemma inInternal_append {p : Path} (hp : p ≠ []) (n : Name) :
    inInternal (p.text ++ "/" ++ n.1) = inInternal p.text := by
  obtain ⟨m, l, rfl⟩ := List.exists_cons_of_ne_nil hp
  rw [← text_snoc hp, List.cons_append, inInternal_text, inInternal_text]

lemma normalizeSlashes_text {p : Path} (hp : p ≠ []) : normalizeSlashes p.text = p.text := by
  have hc : components p.raw = p.raw := by
    have hf : (p.raw.filter fun x => !x.isTrivial) = p.raw := by
      refine List.filter_eq_self.mpr fun x hx => ?_
      obtain ⟨n, -, rfl⟩ := List.mem_map.mp hx
      rfl
    cases p with
    | nil => rfl
    | cons n p => exact hf
  rw [normalizeSlashes, segsOf_text hp, hc, joinComponents, Path.raw, List.map_map]
  rfl

lemma validate_ok {path : String} {u : Unit} (h : validateRemoteRelativePath path = .ok u) :
    ∃ p : Path, p ≠ [] ∧ path = p.text := by
  unfold validateRemoteRelativePath at h
  split at h
  · cases h
  · next hn =>
    simp only [not_or, List.any_eq_true, Bool.or_eq_true, decide_eq_true_eq, not_exists,
      not_and] at hn
    refine exists_text fun x hx => ?_
    obtain ⟨⟨h₀, h₁⟩, h₂⟩ := hn.2.2.2.2.2.2 x hx
    exact ⟨h₀, h₁, h₂⟩

lemma source_ok {path source : String} (h : normalizeRemoteFileSource path = .ok source) :
    source = path ∧ ∃ p : Path, p ≠ [] ∧ path = p.text := by
  obtain ⟨u, hu, h⟩ := bind_eq_ok.mp h
  obtain ⟨p, hp, rfl⟩ := validate_ok hu
  rw [normalizeSlashes_text hp] at h
  cases h
  exact ⟨rfl, p, hp, rfl⟩

lemma directory_ok {path directory : String}
    (h : normalizeRemoteRelativeDirectory path = .ok directory) :
    directory = trimSlashes (trim path) ∧
      (directory = "" ∨ ∃ p : Path, p ≠ [] ∧ directory = p.text) := by
  unfold normalizeRemoteRelativeDirectory at h
  dsimp only at h
  split at h
  · next he =>
    cases h
    exact ⟨he.symm, .inl rfl⟩
  · obtain ⟨u, hu, h⟩ := bind_eq_ok.mp h
    obtain ⟨p, hp, ht⟩ := validate_ok hu
    rw [ht, normalizeSlashes_text hp] at h
    cases h
    exact ⟨ht.symm, .inr ⟨p, hp, rfl⟩⟩

lemma fileName_ok {name newName : String} (h : validateRemoteFileName name = .ok newName) :
    newName = trim name ∧ ∃ n : Name, newName = n.1 := by
  unfold validateRemoteFileName at h
  dsimp only at h
  split at h
  · cases h
  · next hn =>
    cases h
    simp only [not_or] at hn
    exact ⟨rfl, ⟨trim name, hn.1, hn.2.1, hn.2.2.1, hn.2.2.2.1⟩, rfl⟩

lemma snoc_of_ne_nil {p : Path} (hp : p ≠ []) : ∃ q n, p = q ++ [n] :=
  ⟨p.dropLast, p.getLast hp, (List.dropLast_append_getLast hp).symm⟩

lemma baseName_snoc (q : Path) (n : Name) : baseName (Path.text (q ++ [n])) = n.1 := by
  by_cases hq : q = []
  · rw [hq, List.nil_append, text_singleton, baseName, rsplitSlash_name]
  · rw [baseName, rsplitSlash_snoc hq]

/-! ### Proposals of the builders -/

variable {os : Os} {s : Sys} {g : PathGuard}

lemma single_ok {source destination reason : String} {p : Proposal}
    (h : buildSingleMoveProposal os s g source destination reason = .ok p) :
    p.fromPath = source ∧ p.toPath = destination ∧ p.action = .move := by
  obtain ⟨m, -, h⟩ := bind_eq_ok.mp h
  cases h
  exact ⟨rfl, rfl, rfl⟩

/-- A proposal of an action other than trash is out of reach when both its paths are. -/
lemma outOfReach_iff {p : Proposal} (h : p.action ≠ .trash) :
    OutOfReach p ↔ inInternal p.fromPath = false ∧ inInternal p.toPath = false := by
  constructor
  · intro hp
    refine ⟨hp.source, ?_⟩
    by_contra hc
    exact h (hp.destination (Bool.not_eq_false _ ▸ hc)).1
  · rintro ⟨hs, hd⟩
    exact ⟨hs, fun hc => absurd hc (by simp [hd])⟩

lemma trash_reach {path : String} {p : Proposal} (h : trashProposal os s g path = .ok p) :
    OutOfReach p ↔ isMousekeeperInternalDir (firstSegment path) = false := by
  simp only [trashProposal, bind_eq_ok] at h
  obtain ⟨source, hs, m, -, h⟩ := h
  obtain ⟨rfl, q, hq, rfl⟩ := source_ok hs
  cases h
  rw [← inInternal_first hq]
  exact ⟨fun hp => hp.source, fun hp => ⟨hp, fun _ => ⟨rfl, rfl⟩⟩⟩

/-- Where the file goes, the first segment decides: that of the directory, if there is one. -/
def moveFirst (directory path : String) : String :=
  if directory = "" then baseName path else firstSegment directory

lemma destination_reach {directory : String} {p : Path} (hp : p ≠ [])
    (hd : directory = "" ∨ ∃ q : Path, q ≠ [] ∧ directory = q.text) :
    inInternal (moveDestination directory p.text) =
      isMousekeeperInternalDir (moveFirst directory p.text) := by
  obtain ⟨q, n, rfl⟩ := snoc_of_ne_nil hp
  rw [moveDestination, moveFirst, baseName_snoc]
  rcases hd with rfl | ⟨d, hd, rfl⟩
  · rw [if_pos rfl, if_pos rfl, inInternal_name]
  · rw [if_neg (text_ne_empty hd), if_neg (text_ne_empty hd), inInternal_append hd,
      inInternal_first hd]

lemma move_reach {directory path : String} {p : Proposal}
    (hd : directory = "" ∨ ∃ q : Path, q ≠ [] ∧ directory = q.text)
    (h : moveProposal os s g directory path = .ok p) :
    OutOfReach p ↔ isMousekeeperInternalDir (firstSegment path) = false ∧
      isMousekeeperInternalDir (moveFirst directory path) = false := by
  simp only [moveProposal, bind_eq_ok] at h
  obtain ⟨source, hs, h⟩ := h
  obtain ⟨rfl, q, hq, rfl⟩ := source_ok hs
  split at h
  · cases h
  · obtain ⟨hfrom, hto, hact⟩ := single_ok h
    rw [outOfReach_iff (by rw [hact]; decide), hfrom, hto, inInternal_first hq,
      destination_reach hq hd]

lemma sibling_reach (q : Path) (n m : Name) :
    inInternal (siblingRelativePath (Path.text (q ++ [n])) m.1) =
      if q = [] then isMousekeeperInternalDir m.1
      else isMousekeeperInternalDir (firstSegment (Path.text (q ++ [n]))) := by
  have hne : q ++ [n] ≠ [] := by simp
  rw [siblingRelativePath, normalizeSlashes_text hne]
  by_cases hq : q = []
  · rw [hq, List.nil_append, text_singleton, rsplitSlash_name, if_pos rfl]
    exact inInternal_name m
  · obtain ⟨k, l, rfl⟩ := List.exists_cons_of_ne_nil hq
    rw [rsplitSlash_snoc hq, if_neg hq]
    dsimp only
    rw [inInternal_append hq, List.cons_append, firstSegment_text, inInternal_text]

lemma eachSource_forall {α : Type} {f : String → Except String α} {P : α → Prop}
    {C : String → Prop} (hf : ∀ x a, f x = .ok a → (P a ↔ C x)) {l : List String} {as : List α}
    (h : eachSource f l = .ok as) : (∀ a ∈ as, P a) ↔ ∀ x ∈ l, C x := by
  induction l generalizing as with
  | nil =>
    cases h
    simp
  | cons x l ih =>
    obtain ⟨a, ha, h⟩ := bind_eq_ok.mp h
    obtain ⟨as, has, h⟩ := bind_eq_ok.mp h
    cases h
    rw [List.forall_mem_cons, List.forall_mem_cons, hf x a ha, ih has]

/-! ### Proposals of rules -/

lemma accepted_of_set {set : RuleSet} (h : set.validate = .ok ()) :
    ∀ r ∈ set.ordered, Accepted r.action := by
  intro r hr
  obtain ⟨-, h, -⟩ := RuleSet.validate_iff.mp h
  exact accepted_of_validate (h r (List.mem_mergeSort.mp hr))

lemma splitSlash_first (l : List Char) :
    ∃ xs, splitSlash l = l.takeWhile (· ≠ '/') :: xs := by
  induction l with
  | nil => exact ⟨[], rfl⟩
  | cons c cs ih =>
    obtain ⟨xs, hxs⟩ := ih
    by_cases hc : c = '/'
    · exact ⟨splitSlash cs, by simp [splitSlash, hc]⟩
    · exact ⟨xs, by simp [splitSlash, hc, hxs]⟩

lemma takeWhile_ne_nil {d : String} (habs : ¬ isAbsolute d = true) (hne : d ≠ "") :
    d.toList.takeWhile (· ≠ '/') ≠ [] := by
  unfold isAbsolute at habs
  cases hl : d.toList with
  | nil => exact absurd (String.toList_inj.mp (hl.trans (by rfl))) hne
  | cons c cs =>
    rw [hl] at habs
    have hc : c ≠ '/' := by simpa using habs
    simp [hc]

/-- The directory of an accepted action begins with a name. -/
lemma first_name {d : String} (h : validateRelativeDir d = .ok ()) :
    ∃ (n : Name) (l : List Seg), segsOf d = .name n :: l ∧ firstSegment d = n.1 := by
  unfold validateRelativeDir at h
  split at h
  · cases h
  next hne =>
  split at h
  · cases h
  split at h
  · cases h
  next habs =>
  split at h
  · cases h
  · cases h
  next hnone =>
  have hd : d ≠ "" := by
    rintro rfl
    exact hne (by decide)
  obtain ⟨xs, hxs⟩ := splitSlash_first d.toList
  have hseg : segsOf d = Seg.ofPiece (d.toList.takeWhile (· ≠ '/')) :: xs.map Seg.ofPiece := by
    rw [segsOf, hxs, List.map_cons]
  have hslash : '/' ∉ d.toList.takeWhile (· ≠ '/') :=
    not_mem_splitSlash (hxs ▸ List.mem_cons_self)
  have h₁ : d.toList.takeWhile (· ≠ '/') ≠ ['.'] := by
    intro hc
    rw [hc] at hseg
    have hdot : components (segsOf d) =
        .dot :: (xs.map Seg.ofPiece).filter fun x => !x.isTrivial := by
      rw [hseg]
      rfl
    simp [hdot] at hnone
  have h₂ : d.toList.takeWhile (· ≠ '/') ≠ ['.', '.'] := by
    intro hc
    rw [hc] at hseg
    have hdot : components (segsOf d) =
        .dotdot :: (xs.map Seg.ofPiece).filter fun x => !x.isTrivial := by
      rw [hseg]
      rfl
    simp [hdot] at hnone
  obtain ⟨n, hn⟩ := Seg.ofPiece_of_ne hslash ⟨takeWhile_ne_nil habs hd, h₁, h₂⟩
  refine ⟨n, xs.map Seg.ofPiece, by rw [hseg, hn], ?_⟩
  rw [firstSegment, Seg.ofPiece_eq_name hn, String.ofList_toList]

lemma target_first {d : String} (h : validateRelativeDir d = .ok ()) (n : Name) :
    inInternal d = isMousekeeperInternalDir (firstSegment d) ∧
      inInternal (d ++ "/" ++ n.1) = isMousekeeperInternalDir (firstSegment d) := by
  obtain ⟨m, l, hs, hf⟩ := first_name h
  have hj : segsOf (d ++ "/" ++ n.1) = .name m :: (l ++ segsOf n.1) := by
    rw [segsOf_slash, hs, List.cons_append]
  rw [hf, inInternal_cons hs, inInternal_cons hj]
  exact ⟨rfl, rfl⟩

/-- The rule does something with the file: a move does not leave it where it is. -/
def applies (r : Rule) (file : FileEntry) (context : RuleContext) : Bool :=
  ruleMatches r file context &&
    match r.action.moveTo, fileName file.path with
    | some m, some name =>
      normalizeRelativePath file.path ≠ normalizeRelativePath (m ++ "/" ++ name)
    | some _, none => false
    | none, _ => true

/-- The id of the rule's proposal for the file. -/
def idFor (r : Rule) (file : FileEntry) : String :=
  match r.action.moveTo, r.action.createDir with
  | some m, _ => proposalId .move file.path (m ++ "/" ++ (fileName file.path).getD "")
  | none, some d => proposalId .createDir "" d
  | none, none => proposalId .trash file.path TRASH_DIR

/-- The directory of the rule begins with one of the engine's own. -/
def targetsInternal (r : Rule) : Bool :=
  match r.action.moveTo, r.action.createDir with
  | some d, _ | none, some d => isMousekeeperInternalDir (firstSegment d)
  | none, none => false

/-- The rule that makes the proposal for a file. -/
def winner (set : RuleSet) (file : FileEntry) (context : RuleContext) : Option Rule :=
  set.ordered.find? fun r => applies r file context

variable {r : Rule} {set : RuleSet} {file : FileEntry} {context : RuleContext}

lemma scanned_source (hf : Scanned [] file) :
    inInternal file.path = false ∧ ∃ n : Name, fileName file.path = some n.1 := by
  obtain ⟨q, hq, hp, hn⟩ := hf
  rw [List.nil_append] at hp
  obtain ⟨m, l, rfl⟩ := List.exists_cons_of_ne_nil hq
  constructor
  · rw [hp, inInternal_text]
    exact hn m List.mem_cons_self
  · obtain ⟨q, n, hlast⟩ := snoc_of_ne_nil hq
    refine ⟨n, ?_⟩
    rw [hp, fileName, segsOf_text hq, hlast, raw_snoc, fileName_name]
    rfl

/-- What comes of one rule and one file. -/
structure Made (r : Rule) (file : FileEntry) (p : Proposal) : Prop where
  id : p.proposalId = idFor r file
  reach : OutOfReach p ↔ targetsInternal r = false

lemma made_move {m : String} {n : Name} {when : Condition} {id : String} {priority : ℤ}
    (h : validateRelativeDir m = .ok ()) (hf : inInternal file.path = false)
    (hn : fileName file.path = some n.1)
    (hne : normalizeRelativePath file.path ≠ normalizeRelativePath (m ++ "/" ++ n.1)) :
    ∃ p, moveProposalFromRule ⟨id, priority, when, ⟨some m, false, none⟩⟩ file context m = some p ∧
      Made ⟨id, priority, when, ⟨some m, false, none⟩⟩ file p := by
  simp only [moveProposalFromRule, hn, if_neg hne, Option.some.injEq, exists_eq_left']
  refine ⟨by simp only [idFor, hn, Option.getD_some], ?_⟩
  rw [outOfReach_iff (by simp)]
  simp only [hf, (target_first h n).2, targetsInternal, true_and]

/-- **One rule, one file.** -/
lemma proposalFromRule_spec (context : RuleContext) (ha : Accepted r.action) (hf : Scanned [] file) :
    (applies r file context = false → proposalFromRule r file context = none) ∧
      (applies r file context = true →
        ∃ p, proposalFromRule r file context = some p ∧ Made r file p) := by
  obtain ⟨hsrc, n, hn⟩ := scanned_source hf
  obtain ⟨id, priority, when, action⟩ := r
  unfold proposalFromRule applies
  cases hm : ruleMatches ⟨id, priority, when, action⟩ file context with
  | false => simp
  | true =>
    cases ha with
    | move m h =>
      simp only [Bool.true_and, hn, decide_eq_false_iff_not, decide_eq_true_eq, if_true]
      refine ⟨fun he => ?_, made_move h hsrc hn⟩
      simp only [moveProposalFromRule, hn, if_pos (not_not.mp he)]
    | trash =>
      refine ⟨fun hc => absurd hc (by simp), fun _ => ⟨_, rfl, rfl, ?_⟩⟩
      exact ⟨fun _ => rfl, fun _ => ⟨hsrc, fun _ => ⟨rfl, rfl⟩⟩⟩
    | createDir d h =>
      refine ⟨fun hc => absurd hc (by simp), fun _ => ⟨_, rfl, rfl, ?_⟩⟩
      rw [outOfReach_iff (by simp [createDirProposalFromRule])]
      simp only [createDirProposalFromRule, inInternal_empty, (target_first h n).1,
        targetsInternal, true_and]

/-- **One rule set, one file**: the winner makes the proposal. -/
lemma propose_spec (context : RuleContext) (hset : set.validate = .ok ()) (hf : Scanned [] file) :
    (winner set file context = none → set.propose file context = none) ∧
      ∀ r, winner set file context = some r →
        ∃ p, set.propose file context = some p ∧ Made r file p := by
  have ha := accepted_of_set hset
  unfold winner RuleSet.propose
  generalize set.ordered = l at ha
  induction l with
  | nil => exact ⟨fun _ => rfl, fun r hr => (by cases hr)⟩
  | cons r l ih =>
    obtain ⟨hno, hyes⟩ := proposalFromRule_spec context (ha r List.mem_cons_self) hf
    rw [List.find?_cons, List.findSome?_cons]
    cases happ : applies r file context with
    | false =>
      rw [hno happ]
      exact ih fun x hx => ha x (List.mem_cons_of_mem _ hx)
    | true =>
      obtain ⟨p, hp, hmade⟩ := hyes happ
      rw [hp]
      refine ⟨fun hc => (by cases hc), fun x hx => ?_⟩
      cases hx
      exact ⟨p, rfl, hmade⟩

/-- Whenever a rule with such a directory wins, an earlier file has used up the id. -/
def AvoidsOn (set : RuleSet) (files : List FileEntry) (context : RuleContext) : Prop :=
  ∀ pre f post r, files = pre ++ f :: post → winner set f context = some r →
    targetsInternal r = true →
    ∃ f' ∈ pre, ∃ r', winner set f' context = some r' ∧ idFor r' f' = idFor r f

lemma winner_of_propose (hset : set.validate = .ok ()) (hf : Scanned [] file) {p : Proposal}
    (h : set.propose file context = some p) :
    ∃ r, winner set file context = some r ∧ Made r file p := by
  obtain ⟨hno, hyes⟩ := propose_spec context hset hf
  cases hw : winner set file context with
  | none => cases (hno hw).symm.trans h
  | some r =>
    obtain ⟨p', hp', hmade⟩ := hyes r hw
    cases hp'.symm.trans h
    exact ⟨r, rfl, hmade⟩

/-- **Rules**: what is kept is out of reach exactly when the rules avoid the directories. -/
lemma rules_reach {files : List FileEntry} (hset : set.validate = .ok ())
    (hfiles : ∀ f ∈ files, Scanned [] f) :
    (∀ p ∈ keepUnseen (·.proposalId) [] (files.filterMap fun f => set.propose f context),
      OutOfReach p) ↔ AvoidsOn set files context := by
  constructor
  · rintro h pre f post r rfl hw ht
    obtain ⟨p, hp, hmade⟩ := (propose_spec context hset (hfiles f (by simp))).2 r hw
    by_contra hno
    have hmem : p ∈ keepUnseen (·.proposalId) []
        ((pre ++ f :: post).filterMap fun f => set.propose f context) := by
      rw [List.filterMap_append, List.filterMap_cons, hp]
      refine mem_keepUnseen.mpr ⟨_, _, rfl, List.not_mem_nil, fun q hq hid => hno ?_⟩
      obtain ⟨f', hf', hq⟩ := List.mem_filterMap.mp hq
      obtain ⟨r', hw', hmade'⟩ := winner_of_propose hset
        (hfiles f' (List.mem_append_left _ hf')) hq
      exact ⟨f', hf', r', hw', by rw [← hmade'.id, ← hmade.id, hid]⟩
    have hfalse := hmade.reach.mp (h p hmem)
    rw [ht] at hfalse
    cases hfalse
  · intro h p hp
    obtain ⟨pre', post', hsplit, -, hids⟩ := mem_keepUnseen.mp hp
    obtain ⟨l₁, l₂, rfl, hpre, hl₂⟩ := List.filterMap_eq_append_iff.mp hsplit
    obtain ⟨l₃, f, l₄, rfl, hnone, hf, -⟩ := List.filterMap_eq_cons_iff.mp hl₂
    obtain ⟨r, hw, hmade⟩ := winner_of_propose hset (hfiles f (by simp)) hf
    rw [hmade.reach]
    by_contra ht
    obtain ⟨f', hf', r', hw', hid⟩ := h (l₁ ++ l₃) f l₄ r (by simp) hw (by simpa using ht)
    have hscan : Scanned [] f' := hfiles f' (by
      rcases List.mem_append.mp hf' with hf' | hf' <;> simp [hf'])
    obtain ⟨q, hq, hmade'⟩ := (propose_spec context hset hscan).2 r' hw'
    rcases List.mem_append.mp hf' with hf' | hf'
    · refine hids q ?_ (by rw [hmade'.id, hid, hmade.id])
      rw [← hpre]
      exact List.mem_filterMap.mpr ⟨f', hf', hq⟩
    · cases (hnone f' hf').symm.trans hq

/-! ### The theorem -/

/-- No path of the payload, and no directory of a winning rule, begins with one of the engine's
own directories. -/
def Work.Avoids (os : Os) (s : Sys) (root : RawPath) : Work → Prop
  | .rules set => ∀ scan, analyzeRoot os s root = .ok scan →
      AvoidsOn set scan.files (scan.context (unixMs os s))
  | .create payload => isMousekeeperInternalDir (firstSegment
      (if payload.kind = "DIRECTORY" then trimSlashes (trim payload.relativePath)
        else payload.relativePath)) = false
  | .trash payload => ∀ x ∈ payload.sourceRelativePaths,
      isMousekeeperInternalDir (firstSegment x) = false
  | .move payload => ∀ x ∈ payload.sourceRelativePaths,
      isMousekeeperInternalDir (firstSegment x) = false ∧ isMousekeeperInternalDir
        (moveFirst (trimSlashes (trim payload.destinationRelativeDirectory)) x) = false
  | .rename payload => isMousekeeperInternalDir (firstSegment payload.sourceRelativePath) = false ∧
      ('/' ∉ payload.sourceRelativePath.toList →
        isMousekeeperInternalDir (trim payload.newName) = false)

lemma create_reach {action : ProposalAction} {p : Path} {reason : String} (hp : p ≠ [])
    (ha : action ≠ .trash) : OutOfReach (createProposal s g action p.text reason) ↔
      isMousekeeperInternalDir (firstSegment p.text) = false := by
  rw [outOfReach_iff ha, ← inInternal_first hp]
  exact and_iff_right inInternal_empty

lemma directoryTarget_ok {path target : String}
    (h : normalizeRemoteDirectoryTarget path = .ok target) :
    target = trimSlashes (trim path) ∧ ∃ p : Path, p ≠ [] ∧ target = p.text := by
  obtain ⟨d, hd, h⟩ := bind_eq_ok.mp h
  split at h
  · cases h
  · next hne =>
    cases h
    obtain ⟨hd, hp⟩ := directory_ok hd
    exact ⟨hd, hp.resolve_left hne⟩

variable {root : RawPath} {report : ProposalReport}

lemma create_avoids {payload : CreateCommandPayload}
    (h : buildCreateProposalReport s root payload = .ok report) :
    (∀ p ∈ report.proposals, OutOfReach p) ↔ (Work.create payload).Avoids os s root := by
  unfold buildCreateProposalReport at h
  rw [Work.Avoids]
  split at h
  · next hk =>
    unfold buildCreateDirectory at h
    split at h
    · cases h
    · simp only [bind_eq_ok] at h
      obtain ⟨path, hpath, g, -, -, -, h⟩ := h
      cases h
      obtain ⟨ht, p, hp, rfl⟩ := directoryTarget_ok hpath
      rw [if_pos hk, ← ht, List.forall_mem_singleton, create_reach hp (by decide)]
  · next hk =>
    split at h
    · unfold buildCreateFile at h
      split at h
      · cases h
      · simp only [bind_eq_ok] at h
        obtain ⟨path, hpath, g, -, -, -, h⟩ := h
        cases h
        obtain ⟨rfl, p, hp, ht⟩ := source_ok hpath
        rw [if_neg hk, ht, List.forall_mem_singleton, create_reach hp (by decide)]
    · cases h

lemma trash_avoids {payload : TrashCommandPayload}
    (h : buildTrashProposalReport os s root payload = .ok report) :
    (∀ p ∈ report.proposals, OutOfReach p) ↔ (Work.trash payload).Avoids os s root := by
  unfold buildTrashProposalReport at h
  split at h
  · cases h
  · simp only [bind_eq_ok] at h
    obtain ⟨g, -, proposals, hps, h⟩ := h
    cases h
    exact eachSource_forall (fun x a => trash_reach) hps

lemma move_avoids {payload : MoveCommandPayload}
    (h : buildMoveProposalReport os s root payload = .ok report) :
    (∀ p ∈ report.proposals, OutOfReach p) ↔ (Work.move payload).Avoids os s root := by
  unfold buildMoveProposalReport at h
  split at h
  · cases h
  · simp only [bind_eq_ok] at h
    obtain ⟨directory, hd, g, -, -, -, proposals, hps, h⟩ := h
    cases h
    obtain ⟨rfl, hp⟩ := directory_ok hd
    exact eachSource_forall (fun x a => move_reach hp) hps

lemma rename_avoids {payload : RenameCommandPayload}
    (h : buildRenameProposalReport os s root payload = .ok report) :
    (∀ p ∈ report.proposals, OutOfReach p) ↔ (Work.rename payload).Avoids os s root := by
  unfold buildRenameProposalReport at h
  simp only [bind_eq_ok] at h
  obtain ⟨source, hs, newName, hn, h⟩ := h
  split at h
  · cases h
  · simp only [bind_eq_ok] at h
    obtain ⟨g, -, p, hp, h⟩ := h
    cases h
    obtain ⟨rfl, q, hq, ht⟩ := source_ok hs
    obtain ⟨hnew, m, rfl⟩ := fileName_ok hn
    obtain ⟨hfrom, hto, hact⟩ := single_ok hp
    obtain ⟨q, n, rfl⟩ := snoc_of_ne_nil hq
    rw [Work.Avoids]
    rw [List.forall_mem_singleton, outOfReach_iff (by rw [hact]; decide), hfrom, hto, ht,
      inInternal_first hq, sibling_reach, ← hnew]
    refine and_congr_right fun hfirst => ?_
    by_cases h0 : q = []
    · rw [if_pos h0, h0, List.nil_append, text_singleton]
      exact ⟨fun hm _ => hm, fun hm => hm n.2.2.2.2⟩
    · rw [if_neg h0]
      refine ⟨fun _ hno => absurd ?_ hno, fun _ => hfirst⟩
      rw [text_snoc h0]
      simp

/-- **When delegated work leaves the engine's own directories alone**: when no path of the
payload begins there, or when no rule that wins on a scanned file leads there. -/
theorem out_of_reach_iff {w : Work} (h : w.report os s root = .ok report) :
    (∀ p ∈ report.proposals, OutOfReach p) ↔ w.Avoids os s root := by
  cases w with
  | create payload => exact create_avoids h
  | trash payload => exact trash_avoids h
  | move payload => exact move_avoids h
  | rename payload => exact rename_avoids h
  | rules set =>
    obtain ⟨scan, hscan, h⟩ := bind_eq_ok.mp (mapError_eq_ok.mp h)
    rw [mapError_eq_ok] at hscan
    obtain ⟨u, hset, h⟩ := bind_eq_ok.mp h
    cases h
    refine (rules_reach (mapError_eq_ok.mp hset) (scanned_of_analyze hscan)).trans ?_
    refine ⟨fun ha scan' hscan' => ?_, fun ha => ha scan hscan⟩
    cases hscan.symm.trans hscan'
    exact ha

def sampleName : Name := ⟨"home", by decide⟩

/-- A root with a journal and one file of the user's. -/
def sampleSys : Sys :=
  .fresh [([sampleName], .dir 1), ([sampleName, ⟨".mousekeeper", by decide⟩], .dir 2),
    ([sampleName, ⟨".mousekeeper", by decide⟩, ⟨"mousekeeper.db", by decide⟩],
      .file [1] (some 0) 3),
    ([sampleName, ⟨"inbox", by decide⟩], .dir 4),
    ([sampleName, ⟨"inbox", by decide⟩, ⟨"note.md", by decide⟩], .file [2] (some 0) 5)]

def sampleRoot : RawPath := [.name sampleName]

theorem out_of_reach_sample : ∃ report,
    (Work.move ⟨["inbox/note.md"], "documents"⟩).report .still sampleSys sampleRoot = .ok report ∧
    report.proposals.map (·.toPath) = ["documents/note.md"] ∧
    ∀ p ∈ report.proposals, OutOfReach p := by
  have hd : ((Work.move ⟨["inbox/note.md"], "documents"⟩).report .still sampleSys
      sampleRoot).toOption.map (·.proposals.map (·.toPath)) = some ["documents/note.md"] := by
    decide +kernel
  cases hr : (Work.move ⟨["inbox/note.md"], "documents"⟩).report .still sampleSys sampleRoot with
  | error e =>
    rw [hr] at hd
    cases hd
  | ok report =>
    rw [hr] at hd
    refine ⟨report, rfl, Option.some.inj hd, (out_of_reach_iff hr).mpr ?_⟩
    rw [Work.Avoids]
    decide +kernel

/-- The journal's database is moved out of its directory. -/
theorem not_out_of_reach : ¬ ∀ (os : Os) (s : Sys) (root : RawPath) (w : Work)
    (report : ProposalReport), w.report os s root = .ok report →
      ∀ p ∈ report.proposals, OutOfReach p := by
  intro h
  have hd : ((Work.move ⟨[".mousekeeper/mousekeeper.db"], "inbox"⟩).report .still sampleSys
      sampleRoot).toOption.map (·.proposals.map (·.fromPath)) =
        some [".mousekeeper/mousekeeper.db"] := by decide +kernel
  cases hr : (Work.move ⟨[".mousekeeper/mousekeeper.db"], "inbox"⟩).report .still sampleSys
      sampleRoot with
  | error e =>
    rw [hr] at hd
    cases hd
  | ok report =>
    rw [hr] at hd
    obtain ⟨p, hp, hfrom⟩ := List.map_eq_singleton_iff.mp (Option.some.inj hd)
    have hsource := (h _ _ _ _ _ hr p (hp ▸ List.mem_cons_self)).source
    rw [hfrom] at hsource
    exact absurd hsource (by decide +kernel)

end MouseKeeper.Desktop.Builders
