import Mathlib.Algebra.Order.BigOperators.Group.List
import Mathlib.Data.List.Forall2
import MouseKeeper.Desktop.Submissions

/-!
When the server accepts the proposal that the desktop queues for a command.

The sources come from the payload, which the server has checked, or from a scan, which nobody
has. A destination is put together by the desktop, from pieces that were trimmed after the check,
and its length is never measured.
-/

namespace MouseKeeper.Desktop.Builders

open MouseKeeper.Contracts (CommandPayload CreateProposal)
open MouseKeeper.FileEngine Posix

/-! ### Paths as the server sees them -/

/-- No name of the path is reserved. -/
def unreserved (path : String) : Bool :=
  (splitSlash path.toList).all fun x => !Contracts.isWindowsReservedFileName x

section Paths

variable {p q : Path} {n m : Name}

lemma splitSlash_text (hp : p ≠ []) : splitSlash p.text.toList = p.map fun n => n.1.toList := by
  induction p with
  | nil => exact absurd rfl hp
  | cons n p ih =>
    by_cases h : p = []
    · rw [h, text_singleton, splitSlash_of_not_mem n.2.2.2.2]
      rfl
    · have hl : (n.1 ++ "/" ++ Path.text p).toList =
          n.1.toList ++ '/' :: (Path.text p).toList := by simp
      rw [text_cons n h, hl, splitSlash_append, splitSlash_of_not_mem n.2.2.2.2, ih h]
      rfl

lemma unreserved_text (hp : p ≠ []) : unreserved p.text = true ↔
    ∀ n ∈ p, Contracts.isWindowsReservedFileName n.1.toList = false := by
  simp [unreserved, splitSlash_text hp]

lemma mem_text {c : Char} (h : c ∈ n.1.toList) (hn : n ∈ p) : c ∈ (Path.text p).toList := by
  induction p with
  | nil => cases hn
  | cons k p ih =>
    by_cases hp : p = []
    · subst hp
      rw [List.mem_singleton.mp hn] at h
      rwa [text_singleton]
    · rw [text_cons k hp, String.toList_append, String.toList_append]
      rcases List.mem_cons.mp hn with rfl | hn
      · exact List.mem_append_left _ (List.mem_append_left _ h)
      · exact List.mem_append_right _ (ih hn)

lemma not_mem_text {c : Char} (hc : c ≠ '/') (h : ∀ n ∈ p, c ∉ n.1.toList) :
    c ∉ p.text.toList := by
  induction p with
  | nil => simp [Path.text]
  | cons n p ih =>
    rw [List.forall_mem_cons] at h
    by_cases hp : p = []
    · rw [hp, text_singleton]
      exact h.1
    · have hslash : ("/" : String).toList = ['/'] := by decide
      rw [text_cons n hp, String.toList_append, String.toList_append, hslash, List.mem_append,
        List.mem_append, List.mem_singleton]
      rintro ((hm | hm) | hm)
      · exact h.1 hm
      · exact hc hm
      · exact ih h.2 hm

lemma head_text (hp : p ≠ []) : p.text.toList.head? ≠ some '/' := by
  obtain ⟨n, l, rfl⟩ := List.exists_cons_of_ne_nil hp
  have hn : n.1.toList ≠ [] := fun h => n.2.1 (String.toList_inj.mp (by rw [h]; rfl))
  obtain ⟨c, cs, hcs⟩ := List.exists_cons_of_ne_nil hn
  have hc : c ≠ '/' := fun h => n.2.2.2.2 (by rw [hcs, h]; exact List.mem_cons_self)
  by_cases hl : l = []
  · rw [hl, text_singleton, hcs, List.head?_cons]
    exact fun h => hc (Option.some.inj h)
  · rw [text_cons n hl, String.toList_append, String.toList_append, hcs]
    exact fun h => hc (Option.some.inj h)

lemma isSafe_name (n : Name) : Contracts.isSafePathSegment n.1.toList =
    !Contracts.isWindowsReservedFileName n.1.toList := by
  obtain ⟨h₀, h₁, h₂, -⟩ := n.2
  have hne : ∀ s : String, n.1 ≠ s → n.1.toList ≠ s.toList := fun s h =>
    mt String.toList_inj.mp h
  have h₀' := hne "" h₀
  have h₁' := hne "." h₁
  have h₂' := hne ".." h₂
  have e₀ : ("" : String).toList = [] := by decide
  have e₁ : ("." : String).toList = ['.'] := by decide
  have e₂ : (".." : String).toList = ['.', '.'] := by decide
  rw [e₀] at h₀'
  rw [e₁] at h₁'
  rw [e₂] at h₂'
  simp [Contracts.isSafePathSegment, h₀', h₁', h₂']

/-- **The schema on a path without a backslash**: its length, its first characters and its names. -/
lemma schema_text (hp : p ≠ []) (hback : '\\' ∉ p.text.toList)
    (hnul : '\x00' ∉ p.text.toList) :
    Contracts.relativePathSchema p.text = true ↔ Contracts.length p.text ≤ 1024 ∧
      Contracts.hasDriveLetter p.text = false ∧ unreserved p.text = true := by
  have hslashed : p.text.toList.map Contracts.slashed = p.text.toList := by
    conv_rhs => rw [← List.map_id p.text.toList]
    exact List.map_congr_left fun c hc => if_neg fun h : c = '\\' => hback (h ▸ hc)
  have hsegments : (Contracts.segments p.text).all Contracts.isSafePathSegment = true ↔
      unreserved p.text = true := by
    rw [Contracts.segments, hslashed, splitSlash_text hp, unreserved_text hp]
    simp [isSafe_name]
  have hhead : p.text.toList.head? ≠ some '\\' := fun h => hback (List.mem_of_mem_head? h)
  simp only [Contracts.relativePathSchema, text_ne_empty hp, hnul, head_text hp, hhead, ne_eq,
    not_false_eq_true, decide_true, Bool.true_and, Bool.and_true, Bool.and_eq_true, hsegments,
    decide_eq_true_eq, Bool.not_eq_true', and_assoc]

lemma hasDriveLetter_of_not_mem {s : String} (h : ':' ∉ s.toList) :
    Contracts.hasDriveLetter s = false := by
  unfold Contracts.hasDriveLetter
  split
  · next hl => exact absurd (by rw [hl]; simp) h
  · rfl

/-- Below another name, a name with a colon is no drive. -/
lemma hasDriveLetter_snoc (hq : q ≠ []) (hcolon : ':' ∉ q.text.toList) :
    Contracts.hasDriveLetter (Path.text (q ++ [m])) = false := by
  have hne : q.text.toList ≠ [] := fun h =>
    text_ne_empty hq (String.toList_inj.mp (by rw [h]; rfl))
  obtain ⟨c, cs, hcs⟩ := List.exists_cons_of_ne_nil hne
  have hl : (Path.text (q ++ [m])).toList = c :: (cs ++ '/' :: m.1.toList) := by
    rw [text_snoc hq]
    simp [hcs]
  unfold Contracts.hasDriveLetter
  rw [hl]
  split
  · next h =>
    injection h with h₁ h₂
    cases cs with
    | nil =>
      rw [List.nil_append] at h₂
      injection h₂ with h₂
      exact absurd h₂ (by decide)
    | cons d ds =>
      rw [List.cons_append] at h₂
      injection h₂ with h₂
      exact absurd (by rw [hcs, h₂]; simp) hcolon
  · rfl

/-! ### Paths that the desktop has checked -/

/-- A path that stays in the root and has none of the characters that the desktop refuses. -/
structure Plain (path : String) : Prop where
  place : ∃ p : Path, p ≠ [] ∧ path = p.text
  backslash : '\\' ∉ path.toList
  colon : ':' ∉ path.toList
  nul : '\x00' ∉ path.toList

lemma plain_of_validate {path : String} {u : Unit} (h : validateRemoteRelativePath path = .ok u) :
    Plain path := by
  have hplace := validate_ok h
  unfold validateRemoteRelativePath at h
  split at h
  · cases h
  · next hn =>
    simp only [not_or] at hn
    exact ⟨hplace, hn.2.1, hn.2.2.2.2.1, hn.2.2.2.2.2.1⟩

lemma plain_source {path source : String} (h : normalizeRemoteFileSource path = .ok source) :
    source = path ∧ Plain path := by
  refine ⟨(source_ok h).1, ?_⟩
  obtain ⟨u, hu, -⟩ := bind_eq_ok.mp h
  exact plain_of_validate hu

lemma plain_directory {path directory : String}
    (h : normalizeRemoteRelativeDirectory path = .ok directory) :
    directory = trimSlashes (trim path) ∧ (directory = "" ∨ Plain directory) := by
  obtain ⟨hd, hp⟩ := directory_ok h
  refine ⟨hd, or_iff_not_imp_left.mpr fun hne => ?_⟩
  unfold normalizeRemoteRelativeDirectory at h
  dsimp only at h
  rw [if_neg (hd ▸ hne)] at h
  obtain ⟨u, hu, -⟩ := bind_eq_ok.mp h
  rw [hd]
  exact plain_of_validate hu

lemma Plain.schema_iff {path : String} (h : Plain path) :
    Contracts.relativePathSchema path = true ↔
      Contracts.length path ≤ 1024 ∧ unreserved path = true := by
  obtain ⟨⟨p, hp, rfl⟩, hback, hcolon, hnul⟩ := h
  rw [schema_text hp hback hnul]
  exact and_congr_right fun _ => and_iff_right (hasDriveLetter_of_not_mem hcolon)

lemma Plain.normalized {path : String} (h : Plain path) : Contracts.normalized path = path := by
  have hslashed : path.toList.map Contracts.slashed = path.toList := by
    conv_rhs => rw [← List.map_id path.toList]
    exact List.map_congr_left fun c hc => if_neg fun he : c = '\\' => h.backslash (he ▸ hc)
  rw [Contracts.normalized, hslashed, String.ofList_toList]

/-- The last name of a checked path. -/
lemma Plain.last (h : Plain (Path.text (q ++ [n]))) : Plain n.1 := by
  have hmem : n ∈ q ++ [n] := List.mem_append_right _ List.mem_cons_self
  exact ⟨⟨[n], List.cons_ne_nil n [], (text_singleton n).symm⟩,
    fun hc => h.backslash (mem_text hc hmem), fun hc => h.colon (mem_text hc hmem),
    fun hc => h.nul (mem_text hc hmem)⟩

/-- A checked name in a checked directory. -/
lemma Plain.join {directory : String} (h : Plain directory) (hn : Plain n.1) :
    Plain (directory ++ "/" ++ n.1) := by
  obtain ⟨⟨p, hp, rfl⟩, hback, hcolon, hnul⟩ := h
  have hchar : ∀ c : Char, c ≠ '/' → c ∉ p.text.toList → c ∉ n.1.toList →
      c ∉ (p.text ++ "/" ++ n.1).toList := by
    intro c hc h₁ h₂
    have hslash : ("/" : String).toList = ['/'] := by decide
    rw [String.toList_append, String.toList_append, hslash, List.mem_append, List.mem_append,
      List.mem_singleton]
    rintro ((hm | hm) | hm)
    · exact h₁ hm
    · exact hc hm
    · exact h₂ hm
  exact ⟨⟨p ++ [n], by simp, (text_snoc hp n).symm⟩, hchar _ (by decide) hback hn.backslash,
    hchar _ (by decide) hcolon hn.colon, hchar _ (by decide) hnul hn.nul⟩

lemma unreserved_join (hp : p ≠ []) : unreserved (p.text ++ "/" ++ n.1) = true ↔
    unreserved p.text = true ∧ Contracts.isWindowsReservedFileName n.1.toList = false := by
  rw [← text_snoc hp, unreserved_text (by simp), unreserved_text hp, List.forall_mem_append,
    List.forall_mem_singleton]

lemma unreserved_name (n : Name) : unreserved n.1 = true ↔
    Contracts.isWindowsReservedFileName n.1.toList = false := by
  rw [← text_singleton n, unreserved_text (List.cons_ne_nil n []), List.forall_mem_singleton,
    text_singleton]

/-- Less text is shorter. -/
lemma length_le {a b : String} (h : a.toList.Sublist b.toList) :
    Contracts.length a ≤ Contracts.length b :=
  (h.map _).sum_le_sum fun _ _ => Nat.zero_le _

lemma dropEnds_sublist (f : Char → Bool) (l : List Char) :
    ((l.dropWhile f).reverse.dropWhile f).reverse.Sublist l := by
  have h := (List.dropWhile_sublist f (l := (l.dropWhile f).reverse)).reverse
  rw [List.reverse_reverse] at h
  exact h.trans (List.dropWhile_sublist f)

lemma length_trimmed (s : String) :
    Contracts.length (trimSlashes (trim s)) ≤ Contracts.length s := by
  have htrim : (trim s).toList.Sublist s.toList := by
    rw [trim, String.toList_ofList]
    exact dropEnds_sublist _ _
  have hslashes : (trimSlashes (trim s)).toList.Sublist (trim s).toList := by
    rw [trimSlashes, String.toList_ofList]
    exact dropEnds_sublist _ _
  exact (length_le hslashes).trans (length_le htrim)

end Paths

/-! ### The names that the desktop has checked -/

lemma val_toUpper {c : Char} (h : 'a'.val ≤ c.val ∧ c.val ≤ 'z'.val) :
    c.toUpper.val = c.val + ('A'.val - 'a'.val) := by
  rw [show c.toUpper = _ from dif_pos h]

lemma toUpper_toLower (c : Char) : c.toLower.toUpper = c.toUpper := by
  by_cases h : c.val ≥ 'A'.val ∧ c.val ≤ 'Z'.val
  · have hl := val_toLower h
    simp only [Char.reduceVal, ge_iff_le, UInt32.le_iff_toNat_le] at h
    have hlower : 'a'.val ≤ c.toLower.val ∧ c.toLower.val ≤ 'z'.val := by
      rw [hl]
      simp [UInt32.le_iff_toNat_le] at h ⊢
      omega
    have hupper : ¬ ('a'.val ≤ c.val ∧ c.val ≤ 'z'.val) := by
      simp [UInt32.le_iff_toNat_le] at h ⊢
      omega
    have hback : ('a'.val - 'A'.val) + ('A'.val - 'a'.val) = 0 := by decide
    have hkept : c.toUpper = c := dif_neg hupper
    refine Char.ext ?_
    rw [val_toUpper hlower, hkept, hl, UInt32.add_assoc, hback, UInt32.add_zero]
  · rw [show c.toLower = c from dif_neg h]

/-- A name that is not reserved in capitals is not reserved. -/
lemma fileName_unreserved {name newName : String} (h : validateRemoteFileName name = .ok newName) :
    Contracts.isWindowsReservedFileName newName.toList = false ∧ '\\' ∉ newName.toList ∧
      '\x00' ∉ newName.toList := by
  obtain ⟨hnew, -⟩ := fileName_ok h
  unfold validateRemoteFileName at h
  dsimp only at h
  split at h
  · cases h
  next hn =>
  rw [hnew]
  simp only [not_or] at hn
  obtain ⟨-, -, -, -, hback, hnul, -, -, hstem⟩ := hn
  refine ⟨Bool.eq_false_iff.mpr fun hres => hstem ?_, hback, hnul⟩
  rw [Contracts.isWindowsReservedFileName, Bool.and_eq_true, decide_eq_true_eq] at hres
  have hupper : ∀ r ∈ Contracts.reservedFileNames,
      String.ofList (r.toList.map Char.toUpper) ∈ reservedStems := by decide
  have hmem := hupper _ hres.1
  rw [String.toList_ofList, List.map_map] at hmem
  have hcomp : Char.toUpper ∘ Char.toLower = Char.toUpper := funext toUpper_toLower
  rwa [hcomp] at hmem

/-! ### What each builder makes -/

variable {os : Os} {s : Sys} {g : PathGuard} {root : RawPath} {report : ProposalReport}

lemma eachSource_length {α : Type} {f : String → Except String α} {l : List String} {as : List α}
    (h : eachSource f l = .ok as) : as.length = l.length := by
  induction l generalizing as with
  | nil =>
    cases h
    rfl
  | cons x l ih =>
    obtain ⟨a, -, h⟩ := bind_eq_ok.mp h
    obtain ⟨as, has, h⟩ := bind_eq_ok.mp h
    cases h
    rw [List.length_cons, List.length_cons, ih has]

/-- The sources are those of the payload. -/
lemma eachSource_sources {f : String → Except String Proposal}
    (hf : ∀ x p, f x = .ok p → (sourceOf p).map Contracts.normalized = some x) {l : List String}
    {ps : List Proposal} (h : eachSource f l = .ok ps) : sources ps = l := by
  induction l generalizing ps with
  | nil =>
    cases h
    rfl
  | cons x l ih =>
    obtain ⟨p, hp, h⟩ := bind_eq_ok.mp h
    obtain ⟨ps, hps, h⟩ := bind_eq_ok.mp h
    cases h
    have hrest := ih hps
    unfold sources at hrest ⊢
    rw [List.filterMap_cons, hf x p hp, hrest]

lemma trash_fitting {path : String} {p : Proposal} (h : trashProposal os s g path = .ok p) :
    (Fitting p ↔ Contracts.relativePathSchema path = true) ∧
      (sourceOf p).map Contracts.normalized = some path := by
  simp only [trashProposal, bind_eq_ok] at h
  obtain ⟨source, hs, m, -, h⟩ := h
  obtain ⟨rfl, hplain⟩ := plain_source hs
  cases h
  refine ⟨?_, congrArg some hplain.normalized⟩
  simp [Fitting, sourceOf, destinationOf]

lemma fitting_move {p : Proposal} (h : p.action = .move) :
    Fitting p ↔ Contracts.relativePathSchema p.fromPath = true ∧
      Contracts.relativePathSchema p.toPath = true := by
  simp [Fitting, sourceOf, destinationOf, h]

/-- A source that the server takes has no reserved name. -/
lemma unreserved_snoc {q : Path} {n : Name} (h : unreserved (Path.text (q ++ [n])) = true) :
    (∀ k ∈ q, Contracts.isWindowsReservedFileName k.1.toList = false) ∧
      Contracts.isWindowsReservedFileName n.1.toList = false := by
  rw [unreserved_text (by simp), List.forall_mem_append, List.forall_mem_singleton] at h
  exact h

lemma destination_fits {directory path : String} (hd : directory = "" ∨ Plain directory)
    (hplain : Plain path) (hpath : Contracts.relativePathSchema path = true) :
    Contracts.relativePathSchema (moveDestination directory path) = true ↔
      Contracts.length (moveDestination directory path) ≤ 1024 ∧ unreserved directory = true := by
  obtain ⟨p, hp, rfl⟩ := hplain.place
  obtain ⟨q, n, rfl⟩ := snoc_of_ne_nil hp
  have hname := (unreserved_snoc (hplain.schema_iff.mp hpath).2).2
  rw [moveDestination, baseName_snoc]
  rcases hd with rfl | hd
  · rw [if_pos rfl, hplain.last.schema_iff, unreserved_name]
    exact and_congr_right fun _ => iff_of_true hname (by decide)
  · obtain ⟨d, hne, rfl⟩ := hd.place
    rw [if_neg (text_ne_empty hne), (hd.join hplain.last).schema_iff, unreserved_join hne]
    exact and_congr_right fun _ => and_iff_left hname

lemma move_fitting {directory path : String} {p : Proposal}
    (hd : directory = "" ∨ Plain directory) (h : moveProposal os s g directory path = .ok p) :
    (Fitting p ↔ Contracts.relativePathSchema path = true ∧
      Contracts.length (moveDestination directory path) ≤ 1024 ∧ unreserved directory = true) ∧
      (sourceOf p).map Contracts.normalized = some path := by
  simp only [moveProposal, bind_eq_ok] at h
  obtain ⟨source, hs, h⟩ := h
  obtain ⟨rfl, hplain⟩ := plain_source hs
  split at h
  · cases h
  obtain ⟨hfrom, hto, hact⟩ := single_ok h
  constructor
  · rw [fitting_move hact, hfrom, hto]
    exact and_congr_right fun hpath => destination_fits hd hplain hpath
  · rw [sourceOf, hact, hfrom]
    exact congrArg some hplain.normalized

lemma sibling_text (q : Path) (n : Name) (newName : String) :
    siblingRelativePath (Path.text (q ++ [n])) newName =
      if q = [] then newName else q.text ++ "/" ++ newName := by
  rw [siblingRelativePath, normalizeSlashes_text (by simp)]
  by_cases hq : q = []
  · rw [hq, List.nil_append, text_singleton, rsplitSlash_name, if_pos rfl]
  · rw [rsplitSlash_snoc hq, if_neg hq]

lemma sibling_fits {path name newName : String} (hplain : Plain path)
    (hpath : Contracts.relativePathSchema path = true)
    (hname : validateRemoteFileName name = .ok newName) :
    Contracts.relativePathSchema (siblingRelativePath path newName) = true ↔
      Contracts.length (siblingRelativePath path newName) ≤ 1024 ∧
        ('/' ∉ path.toList → Contracts.hasDriveLetter newName = false) := by
  obtain ⟨hres, hback, hnul⟩ := fileName_unreserved hname
  obtain ⟨-, m, rfl⟩ := fileName_ok hname
  obtain ⟨p, hp, rfl⟩ := hplain.place
  obtain ⟨q, n, rfl⟩ := snoc_of_ne_nil hp
  have hnames := (unreserved_snoc (hplain.schema_iff.mp hpath).2).1
  rw [sibling_text]
  by_cases hq : q = []
  · have hslash : '/' ∉ (Path.text (q ++ [n])).toList := by
      rw [hq, List.nil_append, text_singleton]
      exact n.2.2.2.2
    rw [if_pos hq, ← text_singleton m, schema_text (List.cons_ne_nil m [])
      (by rwa [text_singleton]) (by rwa [text_singleton]), text_singleton, unreserved_name]
    refine and_congr_right fun _ => ?_
    rw [and_iff_left hres]
    exact ⟨fun h _ => h, fun h => h hslash⟩
  · have hslash : '/' ∈ (Path.text (q ++ [n])).toList := by
      rw [text_snoc hq]
      simp
    have hchar : ∀ c : Char, c ≠ '/' → c ∉ (Path.text (q ++ [n])).toList → c ∉ m.1.toList →
        c ∉ (Path.text (q ++ [m])).toList := by
      intro c hc h₁ h₂
      refine not_mem_text hc fun k hk hm => ?_
      rcases List.mem_append.mp hk with hk | hk
      · exact h₁ (mem_text hm (List.mem_append_left _ hk))
      · rw [List.mem_singleton.mp hk] at hm
        exact h₂ hm
    have hcolon : ':' ∉ (Path.text q).toList := not_mem_text (by decide) fun k hk hm =>
      hplain.colon (mem_text hm (List.mem_append_left _ hk))
    rw [if_neg hq, ← text_snoc hq, schema_text (by simp)
      (hchar _ (by decide) hplain.backslash hback) (hchar _ (by decide) hplain.nul hnul),
      text_snoc hq, unreserved_join hq, unreserved_text hq, ← text_snoc hq]
    refine and_congr_right fun _ => iff_of_true ?_ fun hno => absurd hslash hno
    exact ⟨hasDriveLetter_snoc hq hcolon, hnames, hres⟩

/-! ### Proposals of rules -/

/-- The source of the rule's proposal for the file. -/
def sourceFor (r : Rule) (file : FileEntry) : Option String :=
  if r.action.createDir.isSome then none else some file.path

/-- The destination of the rule's proposal for the file. -/
def destinationFor (r : Rule) (file : FileEntry) : Option String :=
  match r.action.moveTo, r.action.createDir with
  | some m, _ => some (m ++ "/" ++ (fileName file.path).getD "")
  | none, d => d

/-- The files that some rule wins on, with that rule. -/
def wins (set : RuleSet) (files : List FileEntry) (context : RuleContext) :
    List (FileEntry × Rule) :=
  files.filterMap fun f => (winner set f context).map (f, ·)

/-- The first ones of these whose ids are new. -/
def taken (set : RuleSet) (files : List FileEntry) (context : RuleContext) :
    List (FileEntry × Rule) :=
  (keepUnseen (fun x => idFor x.2 x.1) [] (wins set files context)).take DEFAULT_MAX_PROPOSALS

structure MadeFrom (x : FileEntry × Rule) (p : Proposal) : Prop where
  id : p.proposalId = idFor x.2 x.1
  source : sourceOf p = sourceFor x.2 x.1
  destination : destinationOf p = destinationFor x.2 x.1

variable {r : Rule} {set : RuleSet} {file : FileEntry} {context : RuleContext}

lemma madeFrom_rule {p : Proposal} (ha : Accepted r.action) (hf : Scanned [] file)
    (h : proposalFromRule r file context = some p) : MadeFrom (file, r) p := by
  obtain ⟨-, n, hn⟩ := scanned_source hf
  obtain ⟨id, priority, when, action⟩ := r
  unfold proposalFromRule at h
  split at h
  swap
  · cases h
  cases ha with
  | move m hm =>
    simp only [moveProposalFromRule, hn] at h
    split at h
    · cases h
    · cases h
      exact ⟨by simp [idFor, hn], rfl, by simp [destinationOf, destinationFor, hn]⟩
  | trash =>
    cases h
    exact ⟨by simp [idFor, trashProposalFromRule], rfl, rfl⟩
  | createDir d hd =>
    cases h
    exact ⟨by simp [idFor, createDirProposalFromRule], rfl, rfl⟩

/-- The proposal for a file is that of the winner. -/
lemma madeFrom_propose (hset : set.validate = .ok ()) (hf : Scanned [] file) :
    Option.Rel MadeFrom ((winner set file context).map (file, ·)) (set.propose file context) := by
  have ha := accepted_of_set hset
  unfold winner RuleSet.propose
  generalize set.ordered = l at ha
  induction l with
  | nil => exact .none
  | cons r l ih =>
    have hr := ha r List.mem_cons_self
    obtain ⟨hno, hyes⟩ := proposalFromRule_spec context hr hf
    rw [List.find?_cons, List.findSome?_cons]
    cases happ : applies r file context with
    | false =>
      rw [hno happ]
      exact ih fun x hx => ha x (List.mem_cons_of_mem _ hx)
    | true =>
      obtain ⟨p, hp, -⟩ := hyes happ
      rw [hp]
      exact .some (madeFrom_rule hr hf hp)

section Lists

variable {α β : Type} {R : α → β → Prop} {l : List α} {l' : List β}

lemma forall₂_filterMap {γ : Type} {f : γ → Option α} {f' : γ → Option β} {l : List γ}
    (h : ∀ x ∈ l, Option.Rel R (f x) (f' x)) :
    List.Forall₂ R (l.filterMap f) (l.filterMap f') := by
  induction l with
  | nil => exact .nil
  | cons x l ih =>
    have hrest := ih fun y hy => h y (List.mem_cons_of_mem x hy)
    have hx := h x List.mem_cons_self
    rw [List.filterMap_cons, List.filterMap_cons]
    generalize f x = a at hx ⊢
    generalize f' x = b at hx ⊢
    cases hx with
    | none => exact hrest
    | some hab => exact .cons hab hrest

lemma forall₂_keepUnseen {key : α → String} {key' : β → String}
    (hkey : ∀ a b, R a b → key' b = key a) (h : List.Forall₂ R l l') (seen : List String) :
    List.Forall₂ R (keepUnseen key seen l) (keepUnseen key' seen l') := by
  induction h generalizing seen with
  | nil => exact .nil
  | cons hab _ ih =>
    unfold keepUnseen
    rw [hkey _ _ hab]
    split
    · exact ih seen
    · exact .cons hab (ih _)

lemma forall₂_all {P : α → Prop} {Q : β → Prop} (hPQ : ∀ a b, R a b → (P a ↔ Q b))
    (h : List.Forall₂ R l l') : (∀ a ∈ l, P a) ↔ ∀ b ∈ l', Q b := by
  induction h with
  | nil => simp
  | cons hab _ ih => rw [List.forall_mem_cons, List.forall_mem_cons, hPQ _ _ hab, ih]

lemma forall₂_filterMap_eq {γ : Type} {f : α → Option γ} {f' : β → Option γ}
    (hf : ∀ a b, R a b → f a = f' b) (h : List.Forall₂ R l l') :
    l.filterMap f = l'.filterMap f' := by
  induction h with
  | nil => rfl
  | cons hab _ ih => rw [List.filterMap_cons, List.filterMap_cons, hf _ _ hab, ih]

end Lists

/-- The paths of the scan and of the rules, for the files that a proposal is made for. -/
structure FitsOn (set : RuleSet) (files : List FileEntry) (context : RuleContext) : Prop where
  source : ∀ x ∈ taken set files context, ∀ s ∈ sourceFor x.2 x.1,
    Contracts.relativePathSchema s = true
  destination : ∀ x ∈ taken set files context, ∀ d ∈ destinationFor x.2 x.1,
    Contracts.relativePathSchema d = true
  distinct : ((taken set files context).filterMap fun x =>
    (sourceFor x.2 x.1).map Contracts.normalized).Nodup

lemma rules_fit {files : List FileEntry} (hset : set.validate = .ok ())
    (hfiles : ∀ f ∈ files, Scanned [] f) {ps : List Proposal}
    (hps : ps = (keepUnseen (·.proposalId) []
      (files.filterMap fun f => set.propose f context)).take DEFAULT_MAX_PROPOSALS) :
    (∀ p ∈ ps, Fitting p) ∧ (sources ps).Nodup ↔ FitsOn set files context := by
  have hall : List.Forall₂ MadeFrom (wins set files context)
      (files.filterMap fun f => set.propose f context) :=
    forall₂_filterMap fun f hf => madeFrom_propose hset (hfiles f hf)
  have htaken : List.Forall₂ MadeFrom (taken set files context) ps := by
    rw [hps]
    exact List.forall₂_take _ (forall₂_keepUnseen (fun x p h => h.id) hall [])
  have hfit := forall₂_all (P := fun x => (∀ s ∈ sourceFor x.2 x.1,
      Contracts.relativePathSchema s = true) ∧ ∀ d ∈ destinationFor x.2 x.1,
      Contracts.relativePathSchema d = true) (Q := Fitting)
    (fun x p h => by rw [Fitting, h.source, h.destination]) htaken
  have hsources : ((taken set files context).filterMap fun x =>
      (sourceFor x.2 x.1).map Contracts.normalized) = sources ps :=
    forall₂_filterMap_eq (fun x p h => by rw [h.source]) htaken
  rw [← hfit, ← hsources]
  constructor
  · rintro ⟨hpaths, hnodup⟩
    exact ⟨fun x hx => (hpaths x hx).1, fun x hx => (hpaths x hx).2, hnodup⟩
  · rintro ⟨hsrc, hdst, hnodup⟩
    exact ⟨fun x hx => ⟨hsrc x hx, hdst x hx⟩, hnodup⟩

/-! ### The theorem -/

/-- What the checks of the payload leave open: that no source comes twice, that a destination is
short, that a directory has no reserved name once it is trimmed, that a new name in the root
begins with no drive, and, of a rule set, the paths that it is run on and leads to. -/
def Work.Fits (os : Os) (s : Sys) (root : RawPath) : Work → Prop
  | .rules set => ∀ scan, analyzeRoot os s root = .ok scan →
      FitsOn set scan.files (scan.context (unixMs os s))
  | .create payload => payload.kind = "DIRECTORY" →
      unreserved (trimSlashes (trim payload.relativePath)) = true
  | .trash payload => payload.sourceRelativePaths.Nodup
  | .move payload => (∀ x ∈ payload.sourceRelativePaths,
      Contracts.length (moveDestination
        (trimSlashes (trim payload.destinationRelativeDirectory)) x) ≤ 1024 ∧
      unreserved (trimSlashes (trim payload.destinationRelativeDirectory)) = true) ∧
      payload.sourceRelativePaths.Nodup
  | .rename payload =>
      Contracts.length (siblingRelativePath payload.sourceRelativePath (trim payload.newName)) ≤
        1024 ∧
      ('/' ∉ payload.sourceRelativePath.toList →
        Contracts.hasDriveLetter (trim payload.newName) = false)

/-- What the server has checked of a command's paths. -/
def Work.Checked : Work → Prop
  | .rules _ => True
  | .create payload => Contracts.relativePathSchema payload.relativePath = true
  | .trash payload => payload.sourceRelativePaths.length ≤ 200 ∧
      ∀ x ∈ payload.sourceRelativePaths, Contracts.relativePathSchema x = true
  | .move payload => payload.sourceRelativePaths.length ≤ 200 ∧
      ∀ x ∈ payload.sourceRelativePaths, Contracts.relativePathSchema x = true
  | .rename payload => Contracts.relativePathSchema payload.sourceRelativePath = true

lemma checked_of_workOf (saved : Except RuleError RuleSet) {payload : CommandPayload} {w : Work}
    (hp : payload.Checked) (h : workOf saved payload = .ok w) : w.Checked := by
  cases payload with
  | rename p =>
    cases h
    exact hp
  | move p =>
    cases h
    exact ⟨hp.1.2, hp.2⟩
  | trash p =>
    cases h
    exact ⟨hp.1.2, hp.2⟩
  | create p =>
    cases h
    exact hp
  | organize p =>
    obtain ⟨_, -, h⟩ := bind_eq_ok.mp h
    cases hr : resolveRules saved p with
    | error e =>
      rw [hr] at h
      cases h
    | ok set =>
      rw [hr] at h
      cases h
      exact True.intro

lemma create_fitting {action : ProposalAction} {path reason : String}
    (ha : action = .createDir ∨ action = .createFile) :
    Fitting (createProposal s g action path reason) ↔
      Contracts.relativePathSchema path = true := by
  rcases ha with rfl | rfl <;>
    simp [Fitting, sourceOf, destinationOf, createProposal]

lemma sources_create {action : ProposalAction} {path reason : String}
    (ha : action = .createDir ∨ action = .createFile) :
    sources [createProposal s g action path reason] = [] := by
  rcases ha with rfl | rfl <;> rfl

lemma create_fits {payload : CreateCommandPayload}
    (hc : Contracts.relativePathSchema payload.relativePath = true)
    (h : buildCreateProposalReport s root payload = .ok report) :
    (∀ p ∈ report.proposals.take 1, Fitting p) ∧ (sources (report.proposals.take 1)).Nodup ↔
      (Work.create payload).Fits os s root := by
  unfold buildCreateProposalReport at h
  rw [Work.Fits]
  split at h
  · next hk =>
    unfold buildCreateDirectory at h
    split at h
    · cases h
    simp only [bind_eq_ok] at h
    obtain ⟨path, hpath, g, -, -, -, h⟩ := h
    cases h
    obtain ⟨d, hd, hne⟩ := bind_eq_ok.mp hpath
    split at hne
    · cases hne
    next hroot =>
    cases hne
    obtain ⟨rfl, hplain⟩ := plain_directory hd
    have hlen : Contracts.length payload.relativePath ≤ 1024 := by
      simp only [Contracts.relativePathSchema, Bool.and_eq_true, decide_eq_true_eq] at hc
      exact hc.1.1.1.1.1.2
    rw [List.take_of_length_le (by simp), List.forall_mem_singleton, create_fitting (.inl rfl),
      sources_create (.inl rfl), (hplain.resolve_left hroot).schema_iff,
      and_iff_left List.nodup_nil, and_iff_right ((length_trimmed _).trans hlen)]
    exact ⟨fun hres _ => hres, fun hres => hres hk⟩
  · next hk =>
    split at h
    · unfold buildCreateFile at h
      split at h
      · cases h
      simp only [bind_eq_ok] at h
      obtain ⟨path, hpath, g, -, -, -, h⟩ := h
      cases h
      obtain ⟨rfl, -⟩ := plain_source hpath
      rw [List.take_of_length_le (by simp), List.forall_mem_singleton, create_fitting (.inr rfl),
        sources_create (.inr rfl)]
      exact iff_of_true ⟨hc, List.nodup_nil⟩ fun hdir => absurd hdir hk
    · cases h

lemma trash_fits {payload : TrashCommandPayload}
    (hc : payload.sourceRelativePaths.length ≤ 200 ∧
      ∀ x ∈ payload.sourceRelativePaths, Contracts.relativePathSchema x = true)
    (h : buildTrashProposalReport os s root payload = .ok report) :
    (∀ p ∈ report.proposals.take 200, Fitting p) ∧
      (sources (report.proposals.take 200)).Nodup ↔ (Work.trash payload).Fits os s root := by
  unfold buildTrashProposalReport at h
  split at h
  · cases h
  simp only [bind_eq_ok] at h
  obtain ⟨g, -, ps, hps, h⟩ := h
  cases h
  have hlen : ps.length ≤ 200 := eachSource_length hps ▸ hc.1
  rw [List.take_of_length_le hlen,
    eachSource_forall (fun x p hp => (trash_fitting hp).1) hps,
    eachSource_sources (fun x p hp => (trash_fitting hp).2) hps]
  exact and_iff_right hc.2

lemma move_fits {payload : MoveCommandPayload}
    (hc : payload.sourceRelativePaths.length ≤ 200 ∧
      ∀ x ∈ payload.sourceRelativePaths, Contracts.relativePathSchema x = true)
    (h : buildMoveProposalReport os s root payload = .ok report) :
    (∀ p ∈ report.proposals.take 200, Fitting p) ∧
      (sources (report.proposals.take 200)).Nodup ↔ (Work.move payload).Fits os s root := by
  unfold buildMoveProposalReport at h
  split at h
  · cases h
  simp only [bind_eq_ok] at h
  obtain ⟨directory, hd, g, -, -, -, ps, hps, h⟩ := h
  cases h
  obtain ⟨rfl, hplain⟩ := plain_directory hd
  have hlen : ps.length ≤ 200 := eachSource_length hps ▸ hc.1
  rw [List.take_of_length_le hlen,
    eachSource_forall (fun x p hp => (move_fitting hplain hp).1) hps,
    eachSource_sources (fun x p hp => (move_fitting hplain hp).2) hps]
  refine and_congr_left fun _ => ?_
  exact ⟨fun hall x hx => (hall x hx).2, fun hall x hx => ⟨hc.2 x hx, hall x hx⟩⟩

lemma rename_fits {payload : RenameCommandPayload}
    (hc : Contracts.relativePathSchema payload.sourceRelativePath = true)
    (h : buildRenameProposalReport os s root payload = .ok report) :
    (∀ p ∈ report.proposals.take 1, Fitting p) ∧ (sources (report.proposals.take 1)).Nodup ↔
      (Work.rename payload).Fits os s root := by
  unfold buildRenameProposalReport at h
  simp only [bind_eq_ok] at h
  obtain ⟨source, hs, newName, hn, h⟩ := h
  split at h
  · cases h
  simp only [bind_eq_ok] at h
  obtain ⟨g, -, p, hp, h⟩ := h
  cases h
  obtain ⟨rfl, hplain⟩ := plain_source hs
  obtain ⟨hfrom, hto, hact⟩ := single_ok hp
  have hnodup : (sources [p]).Nodup := by
    rw [sources, List.filterMap_cons, sourceOf, hact]
    exact List.nodup_singleton _
  rw [List.take_of_length_le (by simp), List.forall_mem_singleton, and_iff_left hnodup,
    fitting_move hact, hfrom, hto, and_iff_right hc, sibling_fits hplain hc hn, Work.Fits,
    (fileName_ok hn).1]

/-- **Each kind of work**: what is proposed fits when the work does. -/
lemma work_fits {w : Work} (hc : w.Checked) (h : w.report os s root = .ok report) :
    (∀ p ∈ report.proposals.take w.maxProposals, Fitting p) ∧
      (sources (report.proposals.take w.maxProposals)).Nodup ↔ w.Fits os s root := by
  cases w with
  | create payload => exact create_fits hc h
  | trash payload => exact trash_fits hc h
  | move payload => exact move_fits hc h
  | rename payload => exact rename_fits hc h
  | rules set =>
    obtain ⟨scan, hscan, h⟩ := bind_eq_ok.mp (mapError_eq_ok.mp h)
    rw [mapError_eq_ok] at hscan
    obtain ⟨u, hset, h⟩ := bind_eq_ok.mp h
    cases h
    refine (rules_fit (mapError_eq_ok.mp hset) (scanned_of_analyze hscan) rfl).trans ?_
    refine ⟨fun hfit scan' hscan' => ?_, fun hfit => hfit scan hscan⟩
    cases hscan.symm.trans hscan'
    exact hfit

lemma submission_ok {command : AgentCommand} {w : Work} {proposal : CreateProposal}
    (h : submission os s root command w = .ok (some proposal)) :
    ∃ report, w.report os s root = .ok report ∧
      buildAgentProposalSubmission (unixMs os s) command report w.maxProposals = .ok proposal := by
  simp only [submission, bind_eq_ok] at h
  obtain ⟨report, hreport, made, hmade, h⟩ := h
  cases w with
  | rules set =>
    dsimp only at h
    split at h
    · cases h
    · cases h
      exact ⟨report, hreport, hmade⟩
  | create p | trash p | move p | rename p =>
    cases h
    exact ⟨report, hreport, hmade⟩

/-- A command of the user's is never for nothing. -/
lemma report_ne_nil {w : Work} (hw : ∀ set, w ≠ .rules set) (h : w.report os s root = .ok report) :
    report.proposals ≠ [] := by
  cases w with
  | rules set => exact absurd rfl (hw set)
  | create payload =>
    simp only [Work.report, buildCreateProposalReport] at h
    split at h
    · unfold buildCreateDirectory at h
      split at h
      · cases h
      simp only [bind_eq_ok] at h
      obtain ⟨_, -, _, -, _, -, h⟩ := h
      cases h
      exact List.cons_ne_nil _ _
    · split at h
      · unfold buildCreateFile at h
        split at h
        · cases h
        simp only [bind_eq_ok] at h
        obtain ⟨_, -, _, -, _, -, h⟩ := h
        cases h
        exact List.cons_ne_nil _ _
      · cases h
  | trash payload =>
    simp only [Work.report, buildTrashProposalReport] at h
    split at h
    · cases h
    next hl =>
    simp only [bind_eq_ok] at h
    obtain ⟨_, -, ps, hps, h⟩ := h
    cases h
    intro hnil
    have hlen := eachSource_length hps
    rw [show ps = [] from hnil] at hlen
    exact hl (.inl (List.length_eq_zero_iff.mp hlen.symm))
  | move payload =>
    simp only [Work.report, buildMoveProposalReport] at h
    split at h
    · cases h
    next hl =>
    simp only [bind_eq_ok] at h
    obtain ⟨_, -, _, -, _, -, ps, hps, h⟩ := h
    cases h
    intro hnil
    have hlen := eachSource_length hps
    rw [show ps = [] from hnil] at hlen
    exact hl (.inl (List.length_eq_zero_iff.mp hlen.symm))
  | rename payload =>
    simp only [Work.report, buildRenameProposalReport, bind_eq_ok] at h
    obtain ⟨_, -, _, -, h⟩ := h
    split at h
    · cases h
    simp only [bind_eq_ok] at h
    obtain ⟨_, -, _, -, h⟩ := h
    cases h
    exact List.cons_ne_nil _ _

/-- What is queued has an item. -/
lemma submission_ne_nil {command : AgentCommand} {w : Work} {proposal : CreateProposal}
    (h : submission os s root command w = .ok (some proposal)) : proposal.items.length ≠ 0 := by
  simp only [submission, bind_eq_ok] at h
  obtain ⟨report, hreport, made, hmade, h⟩ := h
  have hlen : 1 ≤ w.maxProposals → report.proposals ≠ [] → made.items.length ≠ 0 := by
    intro hmax hne
    have hpos := List.length_pos_iff.mpr hne
    unfold buildAgentProposalSubmission at hmade
    split at hmade
    · cases hmade
      simp only [List.length_mapIdx, List.length_take]
      omega
    · cases hmade
  cases w with
  | rules set =>
    dsimp only at h
    split at h
    · cases h
    · next hne =>
      cases h
      exact hne
  | create p | trash p | move p | rename p =>
    cases h
    exact hlen (by simp [Work.maxProposals]) (report_ne_nil (fun set => by simp) hreport)

/-- **When the server accepts what the desktop queues for a command**: when the work fits. -/
theorem proposal_accepted_iff {intent : Contracts.CommandIntent} {j : Contracts.Json}
    {payload : CommandPayload} (saved : Except RuleError RuleSet) {w : Work}
    {command : AgentCommand} {proposal : CreateProposal}
    (hcommand : Contracts.uuidSchema command.commandId = true)
    (hroom : Contracts.uuidSchema command.roomId = true)
    (hpayload : Contracts.commandPayloadSchema intent j = some payload)
    (hwork : workOf saved payload = .ok w)
    (h : submission os s root command w = .ok (some proposal)) :
    Contracts.createProposalSchema proposal = true ↔ w.Fits os s root := by
  obtain ⟨report, hreport, hmade⟩ := submission_ok h
  rw [schema_iff hcommand hroom hmade (submission_ne_nil h)]
  exact work_fits (checked_of_workOf saved (Contracts.commandPayloadSchema_checked hpayload) hwork)
    hreport

def sampleCommand : AgentCommand :=
  ⟨"11111111-1111-4111-8111-111111111111", "22222222-2222-4222-8222-222222222222"⟩

/-- The payload of a move of the sources to `documents`. -/
def samplePayload (sources : List String) : Contracts.Json :=
  .obj [("rootId", .str "home"), ("sourceRelativePaths", .arr (sources.map .str)),
    ("destinationRelativeDirectory", .str "documents")]

/-- What is queued for it. -/
def sampleSubmission (sources : List String) : Except String (Option CreateProposal) :=
  submission .still sampleSys sampleRoot sampleCommand (.move ⟨sources, "documents"⟩)

lemma samplePayload_ok : ∀ sources ∈ [["inbox/note.md"], ["inbox/note.md", "inbox/note.md"]],
    Contracts.commandPayloadSchema .move (samplePayload sources) =
      some (.move ⟨"home", sources, "documents"⟩) := by
  have hd : ∀ sources ∈ [["inbox/note.md"], ["inbox/note.md", "inbox/note.md"]],
      Contracts.moveCommandPayloadSchema (samplePayload sources) =
        some ⟨"home", sources, "documents"⟩ := by decide +kernel
  exact fun sources h => congrArg (Option.map CommandPayload.move) (hd sources h)

lemma sampleSubmission_ok : ∀ sources ∈ [["inbox/note.md"], ["inbox/note.md", "inbox/note.md"]],
    ∃ proposal, sampleSubmission sources = .ok (some proposal) ∧
      proposal.items.map (·.destinationRelativePath) =
        sources.map fun _ => some "documents/note.md" := by
  have hd : ∀ sources ∈ [["inbox/note.md"], ["inbox/note.md", "inbox/note.md"]],
      (sampleSubmission sources).toOption.bind (·.map fun p =>
        p.items.map (·.destinationRelativePath)) =
          some (sources.map fun _ => some "documents/note.md") := by decide +kernel
  intro sources hs
  have h := hd sources hs
  cases hr : sampleSubmission sources with
  | error e =>
    rw [hr] at h
    cases h
  | ok made =>
    rw [hr] at h
    cases made with
    | none => cases h
    | some proposal => exact ⟨proposal, rfl, Option.some.inj h⟩

theorem proposal_accepted_sample : ∃ proposal,
    sampleSubmission ["inbox/note.md"] = .ok (some proposal) ∧
    proposal.items.map (·.destinationRelativePath) = [some "documents/note.md"] ∧
    Contracts.createProposalSchema proposal = true := by
  have hmem : ["inbox/note.md"] ∈ [["inbox/note.md"], ["inbox/note.md", "inbox/note.md"]] :=
    List.mem_cons_self
  obtain ⟨proposal, h, hpaths⟩ := sampleSubmission_ok _ hmem
  have hiff := proposal_accepted_iff (.ok ⟨1, []⟩) (by decide +kernel)
    (by decide +kernel) (samplePayload_ok _ hmem) rfl h
  refine ⟨proposal, h, hpaths, hiff.mpr ?_⟩
  rw [Work.Fits]
  decide +kernel

/-- A move of the same file twice. -/
theorem not_proposal_accepted : ¬ ∀ (os : Os) (s : Sys) (root : RawPath)
    (intent : Contracts.CommandIntent) (j : Contracts.Json) (payload : CommandPayload)
    (saved : Except RuleError RuleSet) (w : Work) (command : AgentCommand)
    (proposal : CreateProposal), Contracts.uuidSchema command.commandId = true →
      Contracts.uuidSchema command.roomId = true →
      Contracts.commandPayloadSchema intent j = some payload → workOf saved payload = .ok w →
      submission os s root command w = .ok (some proposal) →
      Contracts.createProposalSchema proposal = true := by
  intro hall
  have hmem : ["inbox/note.md", "inbox/note.md"] ∈
      [["inbox/note.md"], ["inbox/note.md", "inbox/note.md"]] :=
    List.mem_cons_of_mem _ List.mem_cons_self
  obtain ⟨proposal, h, -⟩ := sampleSubmission_ok _ hmem
  have hpayload := samplePayload_ok _ hmem
  have hcommand : Contracts.uuidSchema sampleCommand.commandId = true := by decide +kernel
  have hroom : Contracts.uuidSchema sampleCommand.roomId = true := by decide +kernel
  have hok := hall _ _ _ _ _ _ (.ok ⟨1, []⟩) _ _ _ hcommand hroom hpayload rfl h
  obtain ⟨report, hreport, hmade⟩ := submission_ok h
  have hfits := (schema_iff hcommand hroom hmade (submission_ne_nil h)).mp hok
  rw [work_fits (checked_of_workOf (.ok ⟨1, []⟩)
    (Contracts.commandPayloadSchema_checked hpayload) rfl) hreport, Work.Fits] at hfits
  exact absurd hfits.2 (by decide)

end MouseKeeper.Desktop.Builders
