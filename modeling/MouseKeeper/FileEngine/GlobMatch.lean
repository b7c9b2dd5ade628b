import MouseKeeper.FileEngine.Rules
import MouseKeeper.Wildcards

/-!
What `glob_match` matches.

Where a star of the pattern meets a star of the text, the loop takes the two for the same letter
and forgets that the first can stand for more. All other stars stand for any run.
-/

namespace MouseKeeper.FileEngine

open Wildcards (Piece Matches Freely matches_run_drop matches_one_drop matches_nil)

/-- What a letter of a pattern stands for. -/
def globPiece (c : Char) : Piece Char :=
  if c = '*' then .run fun _ => true
  else if c = '?' then .one fun _ => true
  else .one fun d => d = c

/-- The text matches the pattern, both in lower case. -/
def GlobMatches (may : List Char → List Char → Prop) (pattern text : String) : Prop :=
  Matches may ((pattern.toList.map Char.toLower).map globPiece) (text.toList.map Char.toLower)

/-- A run that begins with a star is this star alone, and there is no empty run before a star. -/
def StarsAlone (part rest : List Char) : Prop := (part ++ rest).head? = some '*' → part = ['*']

/-- The pattern from position `p` on matches the text from position `t` on. -/
def MatchesFrom (pattern text : List Char) (p t : ℕ) : Prop :=
  Matches StarsAlone ((pattern.map globPiece).drop p) (text.drop t)

/-- Since the last star, each letter of the pattern has met a letter of the text. -/
structure SinceStar (pattern text : List Char) (p t star starText : ℕ) : Prop where
  star_lt : star < p
  eq : p + starText = star + 1 + t
  met : ∀ j, star + 1 + j < p →
    pattern[star + 1 + j]? = some '?' ∨ pattern[star + 1 + j]? = text[starText + j]?
  lt : ∀ j, star + 1 + j < p → star + 1 + j < pattern.length

variable {pattern text : List Char} {p t star starText : ℕ}

@[simp] lemma globPiece_star : globPiece '*' = .run fun _ => true := rfl

lemma globPiece_of_ne {c : Char} (hc : c ≠ '*') :
    globPiece c = .one fun d => c = '?' || d = c := by
  unfold globPiece
  rw [if_neg hc]
  split_ifs with h
  · subst h
    simp
  · simp [h]

lemma drop_map_globPiece (hp : p < pattern.length) :
    (pattern.map globPiece).drop p = globPiece pattern[p] :: (pattern.map globPiece).drop (p + 1) := by
  rw [List.drop_eq_getElem_cons (by simpa using hp), List.getElem_map]

/-! ### One letter of the pattern -/

lemma matchesFrom_end (hp : pattern.length ≤ p) : MatchesFrom pattern text p t ↔ text.length ≤ t := by
  have hp' : (pattern.map globPiece).length ≤ p := by simpa using hp
  rw [MatchesFrom, List.drop_eq_nil_of_le hp', matches_nil, List.drop_eq_nil_iff]

/-- A letter that is no star takes one letter. -/
lemma matchesFrom_one (hp : p < pattern.length) (hne : pattern[p] ≠ '*') (ht : t < text.length) :
    MatchesFrom pattern text p t ↔
      (pattern[p] = '?' ∨ pattern[p] = text[t]) ∧ MatchesFrom pattern text (p + 1) (t + 1) := by
  unfold MatchesFrom
  rw [drop_map_globPiece hp, globPiece_of_ne hne, matches_one_drop ht, Bool.or_eq_true,
    decide_eq_true_eq, decide_eq_true_eq, eq_comm (a := text[t])]

lemma not_matchesFrom_one (hp : p < pattern.length) (hne : pattern[p] ≠ '*')
    (ht : text.length ≤ t) : ¬ MatchesFrom pattern text p t := by
  unfold MatchesFrom
  rw [drop_map_globPiece hp, globPiece_of_ne hne, List.drop_eq_nil_of_le ht]
  exact Wildcards.not_matches_one_nil

/-- The part of a text between two positions, and what follows it. -/
lemma take_append_drop_sub {t j : ℕ} (hj : t ≤ j) :
    (text.drop t).take (j - t) ++ text.drop j = text.drop t := by
  rw [← Nat.add_sub_cancel' hj, ← List.drop_drop, Nat.add_sub_cancel_left, List.take_append_drop]

/-- A star leads to a later position. -/
lemma MatchesFrom.after_star (h : MatchesFrom pattern text p t) (hp : p < pattern.length)
    (hstar : pattern[p] = '*') : ∃ j, t ≤ j ∧ MatchesFrom pattern text (p + 1) j := by
  unfold MatchesFrom at h
  rw [drop_map_globPiece hp, hstar, globPiece_star] at h
  obtain ⟨j, hj, -, -, -, h⟩ := h.run_drop
  exact ⟨j, hj, h⟩

/-- Behind the text all positions are one. -/
lemma MatchesFrom.behind {j : ℕ} (h : MatchesFrom pattern text p j) (ht : text.length ≤ t)
    (hj : t ≤ j) : MatchesFrom pattern text p t := by
  unfold MatchesFrom at h ⊢
  rwa [List.drop_eq_nil_of_le (ht.trans hj), ← List.drop_eq_nil_of_le ht] at h

/-- A star that does not meet another one takes any run. -/
lemma matchesFrom_star (hp : p < pattern.length) (hstar : pattern[p] = '*')
    (ht : text[t]? ≠ some '*') :
    MatchesFrom pattern text p t ↔ ∃ j, t ≤ j ∧ MatchesFrom pattern text (p + 1) j := by
  refine ⟨fun h => h.after_star hp hstar, ?_⟩
  rintro ⟨j, hj, h⟩
  unfold MatchesFrom
  rw [drop_map_globPiece hp, hstar, globPiece_star]
  refine matches_run_drop hj (fun _ _ => rfl) (fun hhead => ?_) h
  rw [take_append_drop_sub hj, List.head?_drop] at hhead
  exact absurd hhead ht

/-- A star that meets another one takes just this one. -/
lemma matchesFrom_star_star (hp : p < pattern.length) (hstar : pattern[p] = '*')
    (ht : t < text.length) (ht' : text[t] = '*') :
    MatchesFrom pattern text p t ↔ MatchesFrom pattern text (p + 1) (t + 1) := by
  have hhead : (text.drop t).head? = some '*' := by
    rw [List.head?_drop, List.getElem?_eq_getElem ht, ht']
  have htake : (text.drop t).take (t + 1 - t) = ['*'] := by
    rw [Nat.add_sub_cancel_left, List.drop_eq_getElem_cons ht, ht']
    rfl
  unfold MatchesFrom
  rw [drop_map_globPiece hp, hstar, globPiece_star]
  constructor
  · intro h
    obtain ⟨j, hj, hlen, -, halone, h⟩ := h.run_drop
    rw [halone (by rwa [take_append_drop_sub hj]), List.length_singleton] at hlen
    obtain rfl : j = t + 1 := by omega
    exact h
  · intro h
    exact matches_run_drop (Nat.le_succ t) (fun _ _ => rfl) (fun _ => htake) h

/-! ### Going back to the last star -/

/-- What lies between the last star and here can only be moved forward. -/
lemma SinceStar.forward (h : SinceStar pattern text p t star starText) {j k : ℕ}
    (hj : star + 1 + j ≤ p) (hk : starText + j ≤ k)
    (hm : MatchesFrom pattern text (star + 1 + j) k) : ∃ i, t ≤ i ∧ MatchesFrom pattern text p i := by
  induction hn : p - (star + 1 + j) generalizing j k with
  | zero =>
    have hp : star + 1 + j = p := by omega
    have heq := h.eq
    rw [hp] at hm
    exact ⟨k, by omega, hm⟩
  | succ n ih =>
    have hlt : star + 1 + j < p := by omega
    have hlen := h.lt j hlt
    have hmet := h.met j hlt
    rw [List.getElem?_eq_getElem hlen] at hmet
    by_cases hstar : pattern[star + 1 + j] = '*'
    · -- the star of the text that it has met is still before the run, or is in it
      rw [hstar] at hmet
      have hmet' : text[starText + j]? = some '*' := by
        rcases hmet with hmet | hmet
        · cases hmet
        · exact hmet.symm
      by_cases hkj : k = starText + j
      · subst hkj
        obtain ⟨hlt', heq⟩ := List.getElem?_eq_some_iff.mp hmet'
        rw [matchesFrom_star_star hlen hstar hlt' heq] at hm
        exact ih (j := j + 1) (by omega) (by omega) hm (by omega)
      · obtain ⟨i, hi, hm⟩ := hm.after_star hlen hstar
        exact ih (j := j + 1) (by omega) (by omega) hm (by omega)
    · have hk' : k < text.length := by
        by_contra hk'
        exact not_matchesFrom_one hlen hstar (by omega) hm
      rw [matchesFrom_one hlen hstar hk'] at hm
      exact ih (j := j + 1) (by omega) (by omega) hm.2 (by omega)

/-- A match that the loop can still find: from here on, or after the last star has taken more. -/
def StillMatches (pattern text : List Char) (p t : ℕ) (star : Option ℕ) (starText : ℕ) : Prop :=
  MatchesFrom pattern text p t ∨
    ∃ s ∈ star, ∃ k, starText < k ∧ MatchesFrom pattern text (s + 1) k

/-- The end of the loop as the rest of `glob_match` sees it. -/
def acceptsEnd (pattern : List Char) : Option ℕ → Bool
  | some p => (pattern.drop p).all (· = '*')
  | none => false

lemma matchesFrom_stars (ht : text.length ≤ t) :
    MatchesFrom pattern text p t ↔ (pattern.drop p).all (· = '*') = true := by
  induction hn : pattern.length - p generalizing p with
  | zero =>
    have hp : pattern.length ≤ p := by omega
    rw [matchesFrom_end hp, List.drop_eq_nil_of_le hp]
    simpa using ht
  | succ n ih =>
    have hp : p < pattern.length := by omega
    rw [List.drop_eq_getElem_cons hp, List.all_cons, Bool.and_eq_true, decide_eq_true_eq,
      ← ih (by omega)]
    by_cases hstar : pattern[p] = '*'
    · have hnone : text[t]? ≠ some '*' := by
        rw [List.getElem?_eq_none ht]
        nofun
      rw [matchesFrom_star hp hstar hnone]
      constructor
      · rintro ⟨j, hj, hm⟩
        exact ⟨hstar, hm.behind ht hj⟩
      · rintro ⟨-, hm⟩
        exact ⟨t, le_rfl, hm⟩
    · exact iff_of_false (not_matchesFrom_one hp hstar ht) fun h => hstar h.1

/-- A letter of the text is met. -/
lemma StillMatches.met {star : Option ℕ} (hp : p < pattern.length) (ht : t < text.length)
    (hmet : pattern[p]? = some '?' ∨ pattern[p]? = text[t]?) :
    StillMatches pattern text (p + 1) (t + 1) star starText ↔
      StillMatches pattern text p t star starText := by
  have hfrom : MatchesFrom pattern text p t ↔ MatchesFrom pattern text (p + 1) (t + 1) := by
    rw [List.getElem?_eq_getElem hp, List.getElem?_eq_getElem ht] at hmet
    simp only [Option.some.injEq] at hmet
    by_cases hstar : pattern[p] = '*'
    · refine matchesFrom_star_star hp hstar ht ?_
      rcases hmet with hmet | hmet
      · rw [hstar] at hmet
        cases hmet
      · rw [← hmet, hstar]
    · rw [matchesFrom_one hp hstar ht]
      exact and_iff_right hmet
  unfold StillMatches
  rw [hfrom]

lemma SinceStar.step {s : ℕ} (h : SinceStar pattern text p t s starText) (hp : p < pattern.length)
    (hmet : pattern[p]? = some '?' ∨ pattern[p]? = text[t]?) :
    SinceStar pattern text (p + 1) (t + 1) s starText where
  star_lt := Nat.lt_succ_of_lt h.star_lt
  eq := by
    have heq := h.eq
    omega
  met := fun j hj => by
    rcases Nat.lt_succ_iff_lt_or_eq.mp hj with hlt | heq
    · exact h.met j hlt
    · have htext : starText + j = t := by
        have heq' := h.eq
        omega
      rwa [heq, htext]
  lt := fun j hj => by omega

lemma SinceStar.fresh {s : ℕ} : SinceStar pattern text (s + 1) starText s starText where
  star_lt := Nat.lt_succ_self s
  eq := rfl
  met := fun j hj => absurd hj (by omega)
  lt := fun j hj => absurd hj (by omega)

lemma StillMatches.forward {star : Option ℕ}
    (hs : ∀ s ∈ star, SinceStar pattern text p t s starText)
    (h : StillMatches pattern text p t star starText) :
    ∃ i, t ≤ i ∧ MatchesFrom pattern text p i := by
  rcases h with h | ⟨s, hstar, k, hk, hm⟩
  · exact ⟨t, le_rfl, h⟩
  · have h := hs s hstar
    exact h.forward (j := 0) h.star_lt hk.le hm

/-- A star that has just been met can still take any run. -/
lemma stillMatches_star : StillMatches pattern text (p + 1) t (some p) t ↔
    ∃ i, t ≤ i ∧ MatchesFrom pattern text (p + 1) i := by
  constructor
  · rintro (h | ⟨s, hs, k, hk, hm⟩)
    · exact ⟨t, le_rfl, h⟩
    · cases hs
      exact ⟨k, hk.le, hm⟩
  · rintro ⟨i, hi, hm⟩
    rcases hi.eq_or_lt with rfl | hlt
    · exact .inl hm
    · exact .inr ⟨p, rfl, i, hlt, hm⟩

/-- Nothing matches from here on. -/
lemma not_matchesFrom (ht : t < text.length)
    (hmet : ¬ (p < pattern.length ∧ (pattern[p]? = some '?' ∨ pattern[p]? = text[t]?)))
    (hstar : ¬ (p < pattern.length ∧ pattern[p]? = some '*')) :
    ¬ MatchesFrom pattern text p t := by
  by_cases hp : p < pattern.length
  · rw [List.getElem?_eq_getElem hp] at hmet hstar
    rw [List.getElem?_eq_getElem ht] at hmet
    simp only [hp, true_and, Option.some.injEq] at hmet hstar
    rw [matchesFrom_one hp hstar ht]
    exact fun h => hmet h.1
  · rw [matchesFrom_end (not_lt.mp hp)]
    exact not_le.mpr ht

/-- **The loop finds a match if there is one.** -/
lemma acceptsEnd_globLoop (star : Option ℕ) (hle : starText ≤ t)
    (hs : ∀ s ∈ star, SinceStar pattern text p t s starText) :
    acceptsEnd pattern (globLoop pattern text p t star starText hle) = true ↔
      StillMatches pattern text p t star starText := by
  fun_induction globLoop pattern text p t star starText hle with
  | case1 p t star starText hle ht hmet ih =>
    rw [ih fun s hstar => (hs s hstar).step hmet.1 hmet.2]
    exact StillMatches.met hmet.1 ht hmet.2
  | case2 p t star starText hle ht hmet hstar ih =>
    -- the last star is forgotten: what it could still take, this one can
    have hstar' := hstar.2
    rw [List.getElem?_eq_getElem hstar.1] at hstar'
    have hne : text[t]? ≠ some '*' := fun hne =>
      hmet ⟨hstar.1, .inr (hstar.2.trans hne.symm)⟩
    have hfrom := matchesFrom_star hstar.1 (Option.some.inj hstar') hne
    rw [ih fun s hs' => by cases hs'; exact .fresh, stillMatches_star, ← hfrom]
    refine ⟨.inl, fun h => ?_⟩
    obtain ⟨i, hi, hm⟩ := h.forward hs
    obtain ⟨j, hj, hm⟩ := hm.after_star hstar.1 (Option.some.inj hstar')
    exact hfrom.mpr ⟨j, hi.trans hj, hm⟩
  | case3 p t starText hle ht hmet hstar s ih =>
    rw [ih fun s' hs' => by cases hs'; exact .fresh, stillMatches_star]
    constructor
    · rintro ⟨k, hk, hm⟩
      exact .inr ⟨s, rfl, k, hk, hm⟩
    · rintro (h | ⟨s', hs', k, hk, hm⟩)
      · exact absurd h (not_matchesFrom ht hmet hstar)
      · cases hs'
        exact ⟨k, hk, hm⟩
  | case4 p t starText hle ht hmet hstar =>
    refine iff_of_false (by simp [acceptsEnd]) ?_
    rintro (h | ⟨s, hs', -⟩)
    · exact not_matchesFrom ht hmet hstar h
    · cases hs'
  | case5 p t star starText hle ht =>
    have ht' := not_lt.mp ht
    rw [acceptsEnd, ← matchesFrom_stars ht']
    refine ⟨.inl, fun h => ?_⟩
    obtain ⟨i, hi, hm⟩ := h.forward hs
    exact hm.behind ht' hi

/-- What the code takes for a match. -/
lemma globMatch_iff_alone (pattern text : String) :
    globMatch pattern text = true ↔ GlobMatches StarsAlone pattern text := by
  set p := pattern.toList.map Char.toLower with hp
  set t := text.toList.map Char.toLower with ht
  have hloop : acceptsEnd p (globLoop p t 0 0 none 0 le_rfl) = true ↔
      StillMatches p t 0 0 none 0 := acceptsEnd_globLoop none le_rfl fun s hs => by cases hs
  have hmatch : globMatch pattern text = acceptsEnd p (globLoop p t 0 0 none 0 le_rfl) := rfl
  rw [hmatch, hloop, GlobMatches, ← hp, ← ht]
  constructor
  · rintro (h | ⟨s, hs, -⟩)
    · exact h
    · cases hs
  · exact .inl

/-- **`glob_match`** is right exactly if a text that matches does so with every star that meets a
star standing for this one alone. -/
theorem glob_match_iff (pattern text : String) :
    (globMatch pattern text = true ↔ GlobMatches Freely pattern text) ↔
      (GlobMatches Freely pattern text → GlobMatches StarsAlone pattern text) := by
  rw [globMatch_iff_alone]
  exact ⟨Iff.mpr, fun h => ⟨Matches.freely, h⟩⟩

/-- A star that could stand for the whole text is used up by the star in it. -/
theorem not_glob_match_iff :
    ¬ ∀ pattern text, globMatch pattern text = true ↔ GlobMatches Freely pattern text := by
  intro h
  have hmatches : GlobMatches Freely "*" "*a" :=
    Wildcards.matches_run.mpr ⟨['*', 'a'], [], rfl, fun _ _ => rfl, trivial, .nil⟩
  have hcode : globMatch "*" "*a" = false := by simp [globMatch, globLoop]
  rw [(h "*" "*a").mpr hmatches] at hcode
  cases hcode

/-! ### Texts without stars -/

lemma Matches.starsAlone {ps : List (Piece Char)} {t : List Char} (h : Matches Freely ps t)
    (ht : '*' ∉ t) : Matches StarsAlone ps t := by
  induction h with
  | nil => exact .nil
  | one hc _ ih => exact .one hc (ih fun hmem => ht (List.mem_cons_of_mem _ hmem))
  | run hp _ _ ih =>
    refine .run hp (fun hhead => ?_) (ih fun hmem => ht (List.mem_append_right _ hmem))
    exact absurd (List.mem_of_mem_head? hhead) ht

/-- In a text without stars every pattern finds what it stands for. -/
theorem globMatch_iff_of_no_star {pattern text : String} (h : '*' ∉ text.toList) :
    globMatch pattern text = true ↔ GlobMatches Freely pattern text := by
  rw [globMatch_iff_alone]
  refine ⟨Matches.freely, fun hm => Matches.starsAlone hm fun hmem => ?_⟩
  obtain ⟨c, hc, hstar⟩ := List.mem_map.mp hmem
  exact h (eq_of_toLower_eq (by decide) hstar ▸ hc)

end MouseKeeper.FileEngine
