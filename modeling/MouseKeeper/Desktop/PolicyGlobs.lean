import MouseKeeper.FileEngine.FileIndex
import MouseKeeper.Storage.Globs
import MouseKeeper.Wildcards

/-!
The patterns of a smart-cache policy, on the desktop and on the server.

Both read a pattern as pieces and try the whole path. The desktop marks the positions that the
pieces reach; the server makes a regular expression of them, whose dot is no line terminator. White
space around a pattern is what the language takes for it.
-/

namespace MouseKeeper.Desktop.PolicyGlobs

open Contracts (slashed isLineTerminator)
open Storage.Globs (Part parts matchesExcludedPattern)
open Wildcards

/-! ### The desktop -/

inductive PolicyGlobToken
  | literal (c : Char)
  | anySegment
  | oneSegment
  | anyDeep
  deriving DecidableEq, Repr

def parsePolicyGlob : List Char → List PolicyGlobToken
  | '*' :: '*' :: rest => .anyDeep :: parsePolicyGlob rest
  | '*' :: rest => .anySegment :: parsePolicyGlob rest
  | '?' :: rest => .oneSegment :: parsePolicyGlob rest
  | c :: rest => .literal c :: parsePolicyGlob rest
  | [] => []

/-- The positions after the letters from `i` on, up to the next slash. -/
def segmentEnds : List Char → ℕ → List ℕ
  | [], _ => []
  | c :: rest, i => if c ≠ '/' then (i + 1) :: segmentEnds rest (i + 1) else []

/-- The positions that are marked from position `i` on. -/
def PolicyGlobToken.marks (value : List Char) (i : ℕ) : PolicyGlobToken → List ℕ
  | .literal expected => if value[i]? = some expected then [i + 1] else []
  | .anySegment => i :: segmentEnds (value.drop i) i
  | .oneSegment =>
    match value[i]? with
    | some c => if c ≠ '/' then [i + 1] else []
    | none => []
  | .anyDeep => i :: List.range' (i + 1) (value.length - i)

def mark (value : List Char) (row : List Bool) (token : PolicyGlobToken) (next : List Bool)
    (i : ℕ) : List Bool :=
  if row.getD i false then (token.marks value i).foldl (fun next j => next.set j true) next
  else next

/-- The row of the table after one token more. -/
def nextRow (value : List Char) (row : List Bool) (token : PolicyGlobToken) : List Bool :=
  (List.range (value.length + 1)).foldl (mark value row token)
    (List.replicate (value.length + 1) false)

def globMatches (pattern value : List Char) : Bool :=
  ((parsePolicyGlob pattern).foldl (nextRow value)
    (true :: List.replicate value.length false)).getD value.length false

def normalizePolicyPattern (pattern : String) : List Char :=
  (FileEngine.trim pattern).toList.map slashed

def matchesPolicyPattern (relativePath : String) (patterns : List String) : Bool :=
  patterns.any fun pattern =>
    globMatches (normalizePolicyPattern pattern) (relativePath.toList.map slashed)

/-! ### What a pattern means -/

/-- The pieces of a pattern, where two stars stand for letters of the given kind. -/
def policyPieces (deep : Char → Bool) : List Char → List (Piece Char)
  | '*' :: '*' :: rest => .run deep :: policyPieces deep rest
  | '*' :: rest => .run (· ≠ '/') :: policyPieces deep rest
  | '?' :: rest => .one (· ≠ '/') :: policyPieces deep rest
  | c :: rest => .one (· = c) :: policyPieces deep rest
  | [] => []

/-- The pattern, without the white space around it, covers the path. -/
def Covers (pattern path : String) : Prop :=
  Matches Freely (policyPieces (fun _ => true) (normalizePolicyPattern pattern))
    (path.toList.map slashed)

/-- The same without what JavaScript takes for white space, and without a line end under `**`. -/
def CoversOnLines (pattern path : String) : Prop :=
  Matches Freely (policyPieces (!isLineTerminator ·) ((Contracts.trim pattern).toList.map slashed))
    (path.toList.map slashed)

/-- `smartCachePatternListSchema`. -/
def smartCachePatternListSchema (patterns : List String) : Bool :=
  patterns.all (fun p => p ≠ "" && Contracts.length p ≤ 255) && patterns.length ≤ 100

/-- Both sides give the answer that the patterns mean. -/
structure Agree (patterns : List String) (path : String) : Prop where
  desktop : matchesPolicyPattern path patterns = true ↔ ∃ p ∈ patterns, Covers p path
  server : matchesExcludedPattern path patterns = true ↔ ∃ p ∈ patterns, Covers p path

/-! ### The table of the desktop -/

def PolicyGlobToken.piece : PolicyGlobToken → Piece Char
  | .literal c => .one (· = c)
  | .anySegment => .run (· ≠ '/')
  | .oneSegment => .one (· ≠ '/')
  | .anyDeep => .run fun _ => true

lemma map_piece_parsePolicyGlob (pattern : List Char) :
    (parsePolicyGlob pattern).map PolicyGlobToken.piece = policyPieces (fun _ => true) pattern := by
  fun_induction parsePolicyGlob pattern with
  | case1 rest ih => rw [List.map_cons, ih, policyPieces]; rfl
  | case2 rest h ih => rw [List.map_cons, ih, policyPieces]; exacts [rfl, h]
  | case3 rest ih => rw [List.map_cons, ih, policyPieces]; rfl
  | case4 c rest h₁ h₂ h₃ ih => rw [List.map_cons, ih, policyPieces]; exacts [rfl, h₁, h₂, h₃]
  | case5 => rfl

variable {value : List Char} {i j : ℕ}

lemma foldl_set (l : List ℕ) (row : List Bool) :
    (l.foldl (fun next j => next.set j true) row).length = row.length ∧ ∀ j,
      (l.foldl (fun next j => next.set j true) row).getD j false = true ↔
        row.getD j false = true ∨ j < row.length ∧ j ∈ l := by
  induction l generalizing row with
  | nil => simp
  | cons k l ih =>
    rw [List.foldl_cons]
    obtain ⟨hlen, hget⟩ := ih (row.set k true)
    refine ⟨by rw [hlen, List.length_set], fun j => ?_⟩
    have hset : (row.set k true).getD j false = true ↔
        row.getD j false = true ∨ j < row.length ∧ j = k := by
      by_cases hk : k = j
      · subst hk
        by_cases hj : k < row.length <;> simp [hj]
      · simp [hk, Ne.symm hk]
    rw [hget, hset, List.length_set, List.mem_cons, and_or_left, or_assoc]

lemma mem_segmentEnds {rest : List Char} : j ∈ segmentEnds rest i ↔
    ∃ p s, rest = p ++ s ∧ p ≠ [] ∧ (∀ c ∈ p, c ≠ '/') ∧ j = i + p.length := by
  induction rest generalizing i with
  | nil =>
    simp only [segmentEnds, List.not_mem_nil, false_iff]
    rintro ⟨p, s, h, hp, -⟩
    exact hp (List.append_eq_nil_iff.mp h.symm).1
  | cons c rest ih =>
    by_cases hc : c = '/'
    · rw [segmentEnds, if_neg (not_not.mpr hc)]
      refine ⟨nofun, ?_⟩
      rintro ⟨p, s, h, hp, hall, -⟩
      obtain ⟨d, p, rfl⟩ := List.exists_cons_of_ne_nil hp
      cases h
      exact absurd hc (hall c List.mem_cons_self)
    · rw [segmentEnds, if_pos hc, List.mem_cons, ih]
      constructor
      · rintro (rfl | ⟨p, s, rfl, -, hall, rfl⟩)
        · exact ⟨[c], rest, rfl, List.cons_ne_nil _ _, by simpa using hc, rfl⟩
        · refine ⟨c :: p, s, rfl, List.cons_ne_nil _ _, List.forall_mem_cons.mpr ⟨hc, hall⟩, ?_⟩
          rw [List.length_cons]
          omega
      · rintro ⟨p, s, h, hp, hall, rfl⟩
        obtain ⟨d, p, rfl⟩ := List.exists_cons_of_ne_nil hp
        cases h
        cases p with
        | nil => exact .inl rfl
        | cons d p =>
          refine .inr ⟨d :: p, s, rfl, List.cons_ne_nil _ _, (List.forall_mem_cons.mp hall).2, ?_⟩
          simp only [List.length_cons]
          omega

/-- A token goes on from a position to the end of any part that it stands for. -/
lemma mem_marks {u w : List Char} (token : PolicyGlobToken) :
    j ∈ token.marks (u ++ w) u.length ↔
      ∃ p s, w = p ++ s ∧ Matches Freely [token.piece] p ∧ j = u.length + p.length := by
  cases token with
  | literal e =>
    rw [PolicyGlobToken.marks, List.getElem?_append_right le_rfl, Nat.sub_self]
    constructor
    · intro h
      cases w with
      | nil => cases h
      | cons c w =>
        rw [List.getElem?_cons_zero] at h
        split at h
        · next hc =>
          refine ⟨[c], w, rfl, matches_one_cons.mpr ⟨by simpa using hc, .nil⟩, ?_⟩
          simpa using h
        · cases h
    · rintro ⟨p, s, rfl, hp, rfl⟩
      cases hp with
      | one hc h =>
        cases h
        simpa using hc
  | oneSegment =>
    rw [PolicyGlobToken.marks, List.getElem?_append_right le_rfl, Nat.sub_self]
    constructor
    · intro h
      cases w with
      | nil => cases h
      | cons c w =>
        rw [List.getElem?_cons_zero] at h
        dsimp only at h
        split at h
        · next hc =>
          refine ⟨[c], w, rfl, matches_one_cons.mpr ⟨by simpa using hc, .nil⟩, ?_⟩
          simpa using h
        · cases h
    · rintro ⟨p, s, rfl, hp, rfl⟩
      cases hp with
      | one hc h =>
        cases h
        simpa using hc
  | anySegment =>
    rw [PolicyGlobToken.marks, List.drop_left, List.mem_cons, mem_segmentEnds]
    constructor
    · rintro (rfl | ⟨p, s, rfl, -, hall, rfl⟩)
      · exact ⟨[], w, rfl, matches_run.mpr ⟨[], [], rfl, nofun, trivial, .nil⟩, rfl⟩
      · exact ⟨p, s, rfl, matches_run.mpr
          ⟨p, [], p.append_nil.symm, by simpa using hall, trivial, .nil⟩, rfl⟩
    · rintro ⟨p, s, rfl, hp, rfl⟩
      obtain ⟨q, r, rfl, hall, -, hr⟩ := matches_run.mp hp
      rw [matches_nil] at hr
      subst hr
      rw [List.append_nil]
      by_cases hq : q = []
      · exact .inl (by rw [hq]; rfl)
      · exact .inr ⟨q, s, rfl, hq, by simpa using hall, rfl⟩
  | anyDeep =>
    have hlen : (u ++ w).length - u.length = w.length := by
      rw [List.length_append, Nat.add_sub_cancel_left]
    rw [PolicyGlobToken.marks, hlen, List.mem_cons, List.mem_range'_1]
    constructor
    · intro h
      have hj : u.length ≤ j ∧ j - u.length ≤ w.length := by omega
      refine ⟨w.take (j - u.length), w.drop (j - u.length), (List.take_append_drop ..).symm,
        matches_run.mpr ⟨_, [], (List.append_nil _).symm, fun _ _ => rfl, trivial, .nil⟩, ?_⟩
      rw [List.length_take, Nat.min_eq_left hj.2]
      omega
    · rintro ⟨p, s, rfl, -, rfl⟩
      rw [List.length_append]
      omega

/-- The row marks the ends of the parts that the pieces stand for. -/
structure Marks (value : List Char) (pieces : List (Piece Char)) (row : List Bool) : Prop where
  length : row.length = value.length + 1
  get : ∀ j, row.getD j false = true ↔
    ∃ u w, value = u ++ w ∧ u.length = j ∧ Matches Freely pieces u

lemma getD_replicate_false (n j : ℕ) : (List.replicate n false).getD j false = false := by
  rw [List.getD_eq_getElem?_getD, List.getElem?_replicate]
  split <;> rfl

lemma marks_start (value : List Char) : Marks value [] (true :: List.replicate value.length false) := by
  refine ⟨by simp, fun j => ?_⟩
  constructor
  · intro h
    cases j with
    | zero => exact ⟨[], value, rfl, rfl, .nil⟩
    | succ j =>
      rw [List.getD_cons_succ, getD_replicate_false] at h
      cases h
  · rintro ⟨u, w, -, rfl, hu⟩
    rw [matches_nil] at hu
    subst hu
    rfl

lemma foldl_mark (value : List Char) (l : List ℕ) (row next : List Bool) (token : PolicyGlobToken) :
    (l.foldl (mark value row token) next).length = next.length ∧ ∀ j,
      (l.foldl (mark value row token) next).getD j false = true ↔
        next.getD j false = true ∨ j < next.length ∧
          ∃ i ∈ l, row.getD i false = true ∧ j ∈ token.marks value i := by
  induction l generalizing next with
  | nil => simp
  | cons k l ih =>
    rw [List.foldl_cons]
    obtain ⟨hlen, hget⟩ := ih (mark value row token next k)
    by_cases hk : row.getD k false = true
    · rw [mark, if_pos hk] at hlen hget ⊢
      obtain ⟨hlen', hget'⟩ := foldl_set (token.marks value k) next
      refine ⟨hlen.trans hlen', fun j => ?_⟩
      rw [hget, hget', hlen', List.exists_mem_cons_iff, and_or_left, or_assoc]
      simp only [hk, true_and]
    · rw [mark, if_neg hk] at hlen hget ⊢
      refine ⟨hlen, fun j => ?_⟩
      rw [hget, List.exists_mem_cons_iff]
      simp only [hk, Bool.false_eq_true, false_and, false_or]

lemma Marks.nextRow {pieces : List (Piece Char)} {row : List Bool} (h : Marks value pieces row)
    (token : PolicyGlobToken) : Marks value (pieces ++ [token.piece]) (nextRow value row token) := by
  obtain ⟨hlen, hget⟩ := foldl_mark value (List.range (value.length + 1)) row
    (List.replicate (value.length + 1) false) token
  refine ⟨hlen.trans (List.length_replicate ..), fun j => ?_⟩
  rw [PolicyGlobs.nextRow, hget, getD_replicate_false, List.length_replicate]
  constructor
  · rintro (hj | ⟨-, i, -, hi, hj⟩)
    · cases hj
    · obtain ⟨u, w, rfl, rfl, hu⟩ := (h.get i).mp hi
      obtain ⟨p, s, rfl, hp, rfl⟩ := (mem_marks token).mp hj
      exact ⟨u ++ p, s, (List.append_assoc ..).symm, List.length_append,
        matches_append.mpr ⟨u, p, rfl, hu, hp⟩⟩
  · rintro ⟨u', s, rfl, rfl, hu'⟩
    obtain ⟨u, p, rfl, hu, hp⟩ := matches_append.mp hu'
    have hle : (u ++ p).length < (u ++ p ++ s).length + 1 := by
      simp only [List.length_append]
      omega
    refine .inr ⟨hle, u.length, List.mem_range.mpr ?_,
      (h.get _).mpr ⟨u, p ++ s, List.append_assoc .., rfl, hu⟩, ?_⟩
    · simp only [List.length_append]
      omega
    · rw [List.append_assoc, mem_marks]
      exact ⟨p, s, rfl, hp, List.length_append⟩

lemma marks_foldl {pieces : List (Piece Char)} {row : List Bool} (h : Marks value pieces row)
    (tokens : List PolicyGlobToken) :
    Marks value (pieces ++ tokens.map PolicyGlobToken.piece) (tokens.foldl (nextRow value) row) := by
  induction tokens generalizing pieces row with
  | nil => rwa [List.map_nil, List.append_nil]
  | cons token tokens ih =>
    have hstep := ih (h.nextRow token)
    rwa [List.append_assoc, List.singleton_append] at hstep

/-- The table answers as the pieces of the pattern do. -/
lemma globMatches_iff (pattern : List Char) : globMatches pattern value = true ↔
    Matches Freely (policyPieces (fun _ => true) pattern) value := by
  have h := marks_foldl (marks_start value) (parsePolicyGlob pattern)
  rw [List.nil_append, map_piece_parsePolicyGlob] at h
  rw [globMatches, h.get]
  constructor
  · rintro ⟨u, w, hv, hlen, hu⟩
    have hw : w = [] := by
      have := congrArg List.length hv
      rw [List.length_append] at this
      exact List.eq_nil_of_length_eq_zero (by omega)
    rwa [hv, hw, List.append_nil]
  · intro hv
    exact ⟨value, [], (List.append_nil _).symm, rfl, hv⟩

lemma matchesPolicyPattern_iff (patterns : List String) (path : String) :
    matchesPolicyPattern path patterns = true ↔ ∃ p ∈ patterns, Covers p path := by
  rw [matchesPolicyPattern, List.any_eq_true]
  exact exists_congr fun p => and_congr_right fun _ => globMatches_iff _

/-! ### The expression of the server -/

/-- What a part of the expression stands for. -/
def piece : Part → Piece Char
  | .anything => .run (!isLineTerminator ·)
  | .name => .run (· ≠ '/')
  | .one => .one (· ≠ '/')
  | .character c => .one (· = c)

lemma map_piece_parts (pattern : List Char) :
    (parts pattern).map piece = policyPieces (!isLineTerminator ·) pattern := by
  fun_induction parts pattern with
  | case1 rest ih => rw [List.map_cons, ih, policyPieces]; rfl
  | case2 rest h ih => rw [List.map_cons, ih, policyPieces]; exacts [rfl, h]
  | case3 rest ih => rw [List.map_cons, ih, policyPieces]; rfl
  | case4 c rest h₁ h₂ h₃ ih => rw [List.map_cons, ih, policyPieces]; exacts [rfl, h₁, h₂, h₃]
  | case5 => rfl

lemma star_iff {kind : Char → Bool} {next : List Char → Bool} {s : List Char} :
    Storage.Globs.star kind next s = true ↔
      ∃ p r, s = p ++ r ∧ (∀ c ∈ p, kind c = true) ∧ next r = true := by
  induction s with
  | nil =>
    rw [Storage.Globs.star]
    constructor
    · intro h
      exact ⟨[], [], rfl, nofun, h⟩
    · rintro ⟨p, r, h, -, hr⟩
      rwa [(List.append_eq_nil_iff.mp h.symm).2] at hr
  | cons c s ih =>
    rw [Storage.Globs.star, Bool.or_eq_true, Bool.and_eq_true, ih]
    constructor
    · rintro (h | ⟨hc, p, r, rfl, hp, hr⟩)
      · exact ⟨[], c :: s, rfl, nofun, h⟩
      · exact ⟨c :: p, r, rfl, List.forall_mem_cons.mpr ⟨hc, hp⟩, hr⟩
    · rintro ⟨p, r, h, hp, hr⟩
      cases p with
      | nil => exact .inl (h ▸ hr)
      | cons d p =>
        cases h
        obtain ⟨hc, hp⟩ := List.forall_mem_cons.mp hp
        exact .inr ⟨hc, p, r, rfl, hp, hr⟩

lemma matches_run_freely {kind : Char → Bool} {ps : List (Piece Char)} {s : List Char} :
    Matches Freely (.run kind :: ps) s ↔
      ∃ p r, s = p ++ r ∧ (∀ c ∈ p, kind c = true) ∧ Matches Freely ps r := by
  simp only [matches_run, Freely, true_and]

lemma test_iff (g : List Part) (s : List Char) :
    Part.test g s = true ↔ Matches Freely (g.map piece) s := by
  induction g generalizing s with
  | nil => simp [Part.test]
  | cons part g ih =>
    rw [List.map_cons]
    cases part with
    | anything => simp only [Part.test, star_iff, ih, piece, matches_run_freely]
    | name => simp only [Part.test, star_iff, ih, piece, matches_run_freely]
    | one =>
      cases s with
      | nil => simp [Part.test, piece]
      | cons c s => rw [Part.test, piece, matches_one_cons, ← ih, Bool.and_eq_true]
    | character a =>
      cases s with
      | nil => simp [Part.test, piece]
      | cons c s => rw [Part.test, piece, matches_one_cons, ← ih, Bool.and_eq_true]

lemma matchesExcludedPattern_iff (patterns : List String) (path : String) :
    matchesExcludedPattern path patterns = true ↔ ∃ p ∈ patterns, CoversOnLines p path := by
  rw [matchesExcludedPattern, List.any_eq_true]
  refine exists_congr fun p => and_congr_right fun _ => ?_
  rw [test_iff, map_piece_parts]
  rfl
/-! ### Both sides -/

lemma policyPieces_mono {deep deep' : Char → Bool} {pattern t : List Char}
    (hle : ∀ c ∈ t, deep c = true → deep' c = true)
    (h : Matches Freely (policyPieces deep pattern) t) :
    Matches Freely (policyPieces deep' pattern) t := by
  fun_induction policyPieces deep pattern generalizing t with
  | case1 rest ih =>
    rw [policyPieces]
    obtain ⟨p, r, rfl, hp, hr⟩ := matches_run_freely.mp h
    rw [List.forall_mem_append] at hle
    exact matches_run_freely.mpr ⟨p, r, rfl, fun c hc => hle.1 c hc (hp c hc), ih hle.2 hr⟩
  | case2 rest hne ih =>
    rw [policyPieces]
    · obtain ⟨p, r, rfl, hp, hr⟩ := matches_run_freely.mp h
      rw [List.forall_mem_append] at hle
      exact matches_run_freely.mpr ⟨p, r, rfl, hp, ih hle.2 hr⟩
    · exact hne
  | case3 rest ih =>
    rw [policyPieces]
    cases h with
    | one hc h => exact .one hc (ih (List.forall_mem_cons.mp hle).2 h)
  | case4 c rest h₁ h₂ h₃ ih =>
    rw [policyPieces]
    · cases h with
      | one hc h => exact .one hc (ih (List.forall_mem_cons.mp hle).2 h)
    all_goals assumption
  | case5 => exact h

/-- Where the languages trim a pattern alike, what it covers within lines it covers. -/
lemma CoversOnLines.covers {pattern path : String}
    (htrim : Contracts.trim pattern = FileEngine.trim pattern) (h : CoversOnLines pattern path) :
    Covers pattern path := by
  rw [CoversOnLines, htrim] at h
  exact policyPieces_mono (fun _ _ _ => rfl) h

/-- **Both sides** answer as the patterns mean exactly if a path that is covered is also covered
with no line end under a `**`, and a pattern that only JavaScript trims to one that covers the path
is not alone in that. -/
theorem policy_globs_agree (patterns : List String) (path : String) :
    Agree patterns path ↔
      ((∃ p ∈ patterns, Covers p path) → ∃ p ∈ patterns, CoversOnLines p path) ∧
        ∀ p ∈ patterns, Contracts.trim p ≠ FileEngine.trim p → CoversOnLines p path →
          ∃ q ∈ patterns, Covers q path := by
  constructor
  · intro h
    have hserver := (matchesExcludedPattern_iff patterns path).symm.trans h.server
    exact ⟨hserver.mpr, fun p hp _ hc => hserver.mp ⟨p, hp, hc⟩⟩
  · rintro ⟨hlines, htrims⟩
    refine ⟨matchesPolicyPattern_iff patterns path, ?_⟩
    rw [matchesExcludedPattern_iff]
    refine ⟨?_, hlines⟩
    rintro ⟨p, hp, hc⟩
    by_cases htrim : Contracts.trim p = FileEngine.trim p
    · exact ⟨p, hp, hc.covers htrim⟩
    · exact htrims p hp htrim hc

/-- A name of two lines is excluded by the desktop only; a pattern that begins with a byte order
mark excludes on the server only. -/
theorem not_policy_globs_agree :
    ¬ ∀ patterns path, smartCachePatternListSchema patterns = true →
      Contracts.relativePathSchema path = true → Agree patterns path := by
  intro h
  have hagree := h ["**"] "a\nb" (by decide +kernel) (by decide +kernel)
  have hdesktop : matchesPolicyPattern "a\nb" ["**"] = true := by decide +kernel
  have hserver : matchesExcludedPattern "a\nb" ["**"] = false := by decide +kernel
  rw [hagree.server.mpr (hagree.desktop.mp hdesktop)] at hserver
  cases hserver

example : matchesExcludedPattern "docs" ["\uFEFFdocs"] = true ∧
    matchesPolicyPattern "docs" ["\uFEFFdocs"] = false := by decide +kernel

/-! ### Paths of one line -/

lemma coversOnLines_iff {pattern path : String}
    (hpath : ∀ c ∈ path.toList, isLineTerminator c = false)
    (htrim : Contracts.trim pattern = FileEngine.trim pattern) :
    CoversOnLines pattern path ↔ Covers pattern path := by
  refine ⟨CoversOnLines.covers htrim, fun h => ?_⟩
  rw [CoversOnLines, htrim]
  refine policyPieces_mono (fun c hc _ => ?_) h
  obtain ⟨d, hd, rfl⟩ := List.mem_map.mp hc
  rw [slashed]
  split
  · decide
  · simp [hpath d hd]

/-- On a path of one line the sides agree, where no pattern ends in white space of one language. -/
theorem agree_of_one_line {patterns : List String} {path : String}
    (hpath : ∀ c ∈ path.toList, isLineTerminator c = false)
    (htrim : ∀ p ∈ patterns, Contracts.trim p = FileEngine.trim p) : Agree patterns path := by
  refine ⟨matchesPolicyPattern_iff patterns path, ?_⟩
  rw [matchesExcludedPattern_iff]
  exact exists_congr fun p => and_congr_right fun hp => coversOnLines_iff hpath (htrim p hp)

end MouseKeeper.Desktop.PolicyGlobs
