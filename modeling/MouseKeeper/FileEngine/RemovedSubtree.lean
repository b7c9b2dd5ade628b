import MouseKeeper.FileEngine.HonestProposals
import MouseKeeper.Wildcards

/-!
What `remove_path` takes out of the index.

It deletes the rows of the path itself, and those whose path is like the escaped path with a slash
and a percent sign after it. The escaping makes every letter of the path stand for itself, but
SQLite does not tell the letters of the two cases apart, and only the slashes at the end of the path
are left out.
-/

namespace MouseKeeper.FileEngine

open Posix
open Wildcards (Piece Matches Freely matches_nil matches_run matches_one_cons
  not_matches_one_nil)

/-! ### `LIKE … ESCAPE` -/

/-- `replace`, of one character. -/
def replaceChar (c : Char) (new : List Char) (s : List Char) : List Char :=
  s.flatMap fun d => if d = c then new else [d]

def escapeLike (s : List Char) : List Char :=
  replaceChar '_' ['\\', '_'] (replaceChar '%' ['\\', '%'] (replaceChar '\\' ['\\', '\\'] s))

/-- A letter stands for itself in both cases. -/
def likeLetter (c : Char) : Piece Char := .one fun d => d.toLower = c.toLower

/-- The pattern of `LIKE … ESCAPE '\'`; one that ends in the escape matches nothing. -/
def likePieces : List Char → Option (List (Piece Char))
  | [] => some []
  | '\\' :: [] => none
  | '\\' :: c :: rest => (likePieces rest).map (likeLetter c :: ·)
  | '%' :: rest => (likePieces rest).map (.run (fun _ => true) :: ·)
  | '_' :: rest => (likePieces rest).map (.one (fun _ => true) :: ·)
  | c :: rest => (likePieces rest).map (likeLetter c :: ·)

def Like (text pattern : List Char) : Prop :=
  ∃ pieces, likePieces pattern = some pieces ∧ Matches Freely pieces text

/-- The second parameter of the two statements. -/
def subtreePattern (relativePath : String) : List Char :=
  escapeLike (relativePath.toList.reverse.dropWhile (· = '/')).reverse ++ ['/', '%']

/-! ### Subtrees -/

/-- The path is the given one or lies below it: its segments begin with the given ones. -/
def AtOrBelow (relativePath path : String) : Prop := place relativePath <+: place path

instance (relativePath path : String) : Decidable (AtOrBelow relativePath path) :=
  inferInstanceAs (Decidable (place relativePath <+: place path))

/-- The subtree is gone from both tables, all other rows are as they were, and the generation is
a later one. -/
structure RemovesSubtree (relativePath : String) (ix ix' : FileIndex) : Prop where
  files : ix'.files = ix.files.filter fun f => !decide (AtOrBelow relativePath f.relativePath)
  entries : ix'.entries = ix.entries.filter fun e => !decide (AtOrBelow relativePath e.relativePath)
  generation : ix.generation < ix'.generation

/-- The paths of all rows. -/
def FileIndex.paths (ix : FileIndex) : List String :=
  ix.files.map (·.relativePath) ++ ix.entries.map (·.relativePath)

/-- The rows of the subtree have the text of the path in front, and no others are like that but
for the case of letters. -/
structure ToldApart (relativePath : String) (ix : FileIndex) : Prop where
  generation : ix.generation + 1 < 2 ^ 63
  below : ∀ path ∈ ix.paths, AtOrBelow relativePath path →
    path = relativePath ∨ likeBelow relativePath path = true
  beside : ∀ path ∈ ix.paths, likeBelow relativePath path = true → AtOrBelow relativePath path

variable {relativePath path : String} {ix ix' : FileIndex}

/-! ### The pattern -/

lemma escapeLike_nil : escapeLike [] = [] := rfl

lemma replaceChar_append (c : Char) (new s t : List Char) :
    replaceChar c new (s ++ t) = replaceChar c new s ++ replaceChar c new t :=
  List.flatMap_append

lemma escapeLike_append (s t : List Char) : escapeLike (s ++ t) = escapeLike s ++ escapeLike t := by
  unfold escapeLike
  rw [replaceChar_append, replaceChar_append, replaceChar_append]

lemma escapeLike_singleton (c : Char) :
    escapeLike [c] = if c = '\\' ∨ c = '%' ∨ c = '_' then ['\\', c] else [c] := by
  by_cases hs : c = '\\'
  · subst hs
    rfl
  by_cases hp : c = '%'
  · subst hp
    rfl
  by_cases hu : c = '_'
  · subst hu
    rfl
  · simp [escapeLike, replaceChar, hs, hp, hu]

/-- What is escaped stands for itself. -/
lemma likePieces_escapeLike (s rest : List Char) :
    likePieces (escapeLike s ++ rest) = (likePieces rest).map (s.map likeLetter ++ ·) := by
  induction s with
  | nil => simp [escapeLike_nil]
  | cons c s ih =>
    rw [← List.singleton_append, escapeLike_append, escapeLike_singleton, List.append_assoc]
    have hletter : likePieces ((if c = '\\' ∨ c = '%' ∨ c = '_' then ['\\', c] else [c]) ++
        (escapeLike s ++ rest)) = (likePieces (escapeLike s ++ rest)).map (likeLetter c :: ·) := by
      split_ifs with h
      · rfl
      · push Not at h
        simp [likePieces, h.1, h.2.1, h.2.2]
    rw [hletter, ih, Option.map_map]
    rfl

lemma matches_letters (s : List Char) (ps : List (Piece Char)) (t : List Char) :
    Matches Freely (s.map likeLetter ++ ps) t ↔ ∃ u v, t = u ++ v ∧
      u.map Char.toLower = s.map Char.toLower ∧ Matches Freely ps v := by
  induction s generalizing t with
  | nil => simp
  | cons c s ih =>
    rw [List.map_cons, List.cons_append, likeLetter]
    cases t with
    | nil =>
      refine iff_of_false not_matches_one_nil ?_
      rintro ⟨u, v, ht, hu, -⟩
      obtain ⟨rfl, -⟩ := List.append_eq_nil_iff.mp ht.symm
      cases hu
    | cons d t =>
      rw [matches_one_cons, ih, decide_eq_true_eq]
      constructor
      · rintro ⟨hd, u, v, rfl, hu, hv⟩
        exact ⟨d :: u, v, rfl, by rw [List.map_cons, List.map_cons, hd, hu], hv⟩
      · rintro ⟨u, v, ht, hu, hv⟩
        cases u with
        | nil => cases hu
        | cons e u =>
          obtain ⟨rfl, rfl⟩ := List.cons.inj ht
          obtain ⟨he, hu⟩ := List.cons.inj hu
          exact ⟨he, u, v, rfl, hu, hv⟩

/-- The rows that the pattern selects. -/
lemma like_subtreePattern : Like path.toList (subtreePattern relativePath) ↔
    likeBelow relativePath path = true := by
  generalize hs : (relativePath.toList.reverse.dropWhile (· = '/')).reverse = s
  have hpieces : likePieces (subtreePattern relativePath) =
      some ((s ++ ['/']).map likeLetter ++ [Piece.run fun _ => true]) := by
    rw [subtreePattern, hs, likePieces_escapeLike, List.map_append, List.append_assoc]
    rfl
  have hbelow : likeBelow relativePath path =
      ((s ++ ['/']).map Char.toLower).isPrefixOf (path.toList.map Char.toLower) := by
    rw [← hs]
    rfl
  rw [hbelow, List.isPrefixOf_iff_prefix]
  unfold Like
  rw [hpieces]
  simp only [Option.some.injEq, exists_eq_left']
  rw [matches_letters]
  constructor
  · rintro ⟨u, v, ht, hu, -⟩
    rw [← hu, ht, List.map_append]
    exact List.prefix_append _ _
  · intro h
    have htake := List.prefix_iff_eq_take.mp h
    rw [List.length_map, ← List.map_take] at htake
    refine ⟨path.toList.take (s ++ ['/']).length, path.toList.drop (s ++ ['/']).length,
      (List.take_append_drop _ _).symm, htake.symm, ?_⟩
    exact matches_run.mpr ⟨_, [], (List.append_nil _).symm, fun _ _ => rfl, trivial, .nil⟩

/-! ### What is left -/

/-- Where the row of a path is kept as it should be. -/
lemma isKept_eq_iff : isKept relativePath path = (!decide (AtOrBelow relativePath path)) ↔
    (AtOrBelow relativePath path → path = relativePath ∨ likeBelow relativePath path = true) ∧
      (likeBelow relativePath path = true → AtOrBelow relativePath path) := by
  have hself : path = relativePath → AtOrBelow relativePath path := by
    rintro rfl
    exact List.prefix_refl _
  unfold isKept
  by_cases hb : AtOrBelow relativePath path
  · cases likeBelow relativePath path <;> simp [hb]
  · have hne : path ≠ relativePath := fun h => hb (hself h)
    cases likeBelow relativePath path <;> simp [hb, hne]

/-- A filter is known by what it keeps of the list. -/
lemma eq_of_filter_eq {α : Type} {p q : α → Bool} {l : List α} (h : l.filter p = l.filter q) {a : α}
    (ha : a ∈ l) : p a = q a := by
  rw [Bool.eq_iff_iff]
  have hmem : a ∈ l.filter p ↔ a ∈ l.filter q := by rw [h]
  rwa [List.mem_filter, List.mem_filter, and_iff_right ha, and_iff_right ha] at hmem

lemma removePath_ok (h : removePath relativePath ix = .ok ix') :
    ix.generation + 1 < 2 ^ 63 ∧ ix'.generation = ix.generation + 1 ∧
      ix'.files = (ix.files.filter fun f => isKept relativePath f.relativePath) ∧
      ix'.entries = ix.entries.filter fun e => isKept relativePath e.relativePath := by
  obtain ⟨g, hg, h⟩ := bind_eq_ok.mp h
  cases h
  unfold bumpGeneration at hg
  split at hg
  · next hlt =>
    cases hg
    exact ⟨hlt, rfl, rfl, rfl⟩
  · cases hg

lemma exists_removePath (h : ix.generation + 1 < 2 ^ 63) :
    ∃ ix', removePath relativePath ix = .ok ix' := by
  unfold removePath bumpGeneration
  rw [if_pos h]
  exact ⟨_, rfl⟩

/-- **A subtree is removed** exactly if no row is taken for one of it that differs in the case of
letters, and each row of it has the text of the path in front. -/
theorem removes_subtree (relativePath : String) (ix : FileIndex) :
    (∃ ix', removePath relativePath ix = .ok ix' ∧ RemovesSubtree relativePath ix ix') ↔
      ToldApart relativePath ix := by
  constructor
  · rintro ⟨ix', hok, hr⟩
    obtain ⟨hlt, -, hfiles, hentries⟩ := removePath_ok hok
    have hkept : ∀ path ∈ ix.paths,
        isKept relativePath path = !decide (AtOrBelow relativePath path) := by
      intro path hp
      rcases List.mem_append.mp hp with hp | hp
      · obtain ⟨f, hf, rfl⟩ := List.mem_map.mp hp
        exact eq_of_filter_eq (hfiles.symm.trans hr.files) hf
      · obtain ⟨e, he, rfl⟩ := List.mem_map.mp hp
        exact eq_of_filter_eq (hentries.symm.trans hr.entries) he
    exact ⟨hlt, fun path hp => (isKept_eq_iff.mp (hkept path hp)).1,
      fun path hp => (isKept_eq_iff.mp (hkept path hp)).2⟩
  · intro h
    obtain ⟨ix', hok⟩ : ∃ ix', removePath relativePath ix = .ok ix' :=
      exists_removePath h.generation
    obtain ⟨-, hg, hfiles, hentries⟩ := removePath_ok hok
    have hkept : ∀ path ∈ ix.paths,
        isKept relativePath path = !decide (AtOrBelow relativePath path) := fun path hp =>
      isKept_eq_iff.mpr ⟨h.below path hp, h.beside path hp⟩
    refine ⟨ix', hok, ?_, ?_, by omega⟩
    · rw [hfiles]
      exact List.filter_congr fun f hf => hkept _ (List.mem_append_left _ (List.mem_map_of_mem hf))
    · rw [hentries]
      exact List.filter_congr fun e he => hkept _ (List.mem_append_right _ (List.mem_map_of_mem he))

/-! ### Paths as the scan writes them -/

lemma atOrBelow_text {p q : Path} (hp : p ≠ []) (hq : q ≠ []) : AtOrBelow p.text q.text ↔
    p.text = q.text ∨ p.text.toList ++ ['/'] <+: q.text.toList := by
  have hname : Function.Injective Seg.name := fun _ _ h => Seg.name.inj h
  have hchars : Function.Injective fun n : Name => n.1.toList := fun _ _ h =>
    Subtype.ext (String.toList_inj.mp h)
  rw [AtOrBelow, place_text hp, place_text hq, Path.raw, Path.raw,
    List.prefix_map_iff_of_injective hname, ← List.prefix_map_iff_of_injective hchars,
    ← splitSlash_of_segsOf (segsOf_text hp), ← splitSlash_of_segsOf (segsOf_text hq),
    splitSlash_isPrefixOf, String.toList_inj]

/-- The text of a place does not end in a slash. -/
lemma reverse_dropWhile_text {p : Path} (hp : p ≠ []) :
    (p.text.toList.reverse.dropWhile (· = '/')).reverse = p.text.toList := by
  obtain ⟨l, n, rfl⟩ := List.eq_nil_or_concat' p |>.resolve_left hp
  obtain ⟨c, s, hs⟩ : ∃ c s, n.1.toList.reverse = c :: s := by
    refine List.exists_cons_of_ne_nil fun h => name_ne_empty n ?_
    exact String.toList_inj.mp (List.reverse_eq_nil_iff.mp h)
  have hc : c ≠ '/' := by
    rintro rfl
    refine n.2.2.2.2 (List.mem_reverse.mp ?_)
    rw [hs]
    exact List.mem_cons_self
  obtain ⟨s', hs'⟩ : ∃ s', (Path.text (l ++ [n])).toList.reverse = c :: s' := by
    by_cases hl : l = []
    · subst hl
      exact ⟨s, by rw [List.nil_append, text_singleton, hs]⟩
    · exact ⟨s ++ (Path.text l ++ "/").toList.reverse, by
        rw [text_snoc hl, String.toList_append, List.reverse_append, hs, List.cons_append]⟩
  rw [hs', List.dropWhile_cons_of_neg (by simpa using hc), ← hs', List.reverse_reverse]

/-- Of paths as the scan writes them, only those that differ in the case of letters are taken for
others. -/
theorem toldApart_text {p : Path} (hp : p ≠ []) {ix : FileIndex}
    (hix : ∀ path ∈ ix.paths, ∃ q : Path, q ≠ [] ∧ path = q.text)
    (hg : ix.generation + 1 < 2 ^ 63) : ToldApart p.text ix ↔
      ∀ path ∈ ix.paths, likeBelow p.text path = true → p.text.toList ++ ['/'] <+: path.toList := by
  have hlike : ∀ path, likeBelow p.text path = true ↔
      (p.text.toList ++ ['/']).map Char.toLower <+: path.toList.map Char.toLower := by
    intro path
    rw [likeBelow, reverse_dropWhile_text hp, List.isPrefixOf_iff_prefix]
  constructor
  · intro h path hpath hb
    obtain ⟨q, hq, rfl⟩ := hix path hpath
    rcases (atOrBelow_text hp hq).mp (h.beside _ hpath hb) with heq | hpre
    · -- a path does not begin with itself and a slash
      have hlen := ((hlike _).mp hb).length_le
      rw [← heq, List.length_map, List.length_map, List.length_append] at hlen
      simp at hlen
    · exact hpre
  · intro h
    refine ⟨hg, fun path hpath hb => ?_, fun path hpath hb => ?_⟩
    · obtain ⟨q, hq, rfl⟩ := hix path hpath
      refine ((atOrBelow_text hp hq).mp hb).imp Eq.symm fun hpre => ?_
      exact (hlike _).mpr (hpre.map Char.toLower)
    · obtain ⟨q, hq, rfl⟩ := hix path hpath
      exact (atOrBelow_text hp hq).mpr (.inr (h _ hpath hb))

/-! ### Samples -/

def noteRow (path : String) : IndexedFile := ⟨path, 1, none, none, none⟩

/-- Two directories whose names differ in one letter's case. -/
def twoCases : FileIndex :=
  ⟨[noteRow "docs/a", noteRow "Docs/b"], [], 1, true, by decide, List.nodup_nil⟩

/-- With `docs`, `Docs` is gone too. -/
theorem not_removes_subtree : ¬ ∀ (relativePath : String) (ix : FileIndex),
    ∃ ix', removePath relativePath ix = .ok ix' ∧ RemovesSubtree relativePath ix ix' := by
  intro h
  obtain ⟨ix', hok, hr⟩ := h "docs" twoCases
  obtain ⟨-, -, hfiles, -⟩ := removePath_ok hok
  have hmem : noteRow "Docs/b" ∈ twoCases.files := by decide
  have hkept : isKept "docs" "Docs/b" = !decide (AtOrBelow "docs" "Docs/b") :=
    eq_of_filter_eq (hfiles.symm.trans hr.files) hmem
  have hgone : isKept "docs" "Docs/b" = false := by decide +kernel
  have hbeside : ¬ AtOrBelow "docs" "Docs/b" := by decide +kernel
  rw [hgone, decide_eq_false hbeside] at hkept
  cases hkept

end MouseKeeper.FileEngine
