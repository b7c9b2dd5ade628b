import Mathlib.Data.List.Sort
import MouseKeeper.Desktop.HiddenFiles

/-!
The cursors of a search and the requests that they are accepted for.

A cursor carries a fingerprint of its request, the generation of the index and an offset. The
fingerprint is made of one text in which the parts of the request stand between bars, and a bar
may also stand in a directory and in a query.
-/

namespace MouseKeeper.Desktop.RemoteView

open Posix FileEngine
open Contracts (isExtension slashed)

/-! ### What a fingerprint is made of -/

def scopeText : IndexedSearchScope → String
  | .currentDirectory => "CurrentDirectory"
  | .managedRoot => "ManagedRoot"

/-- The directory with slashes for backslashes. -/
def SearchRequest.place (r : SearchRequest) : String := r.relativeDirectory.map slashed

/-- The extensions in lower case. -/
def SearchRequest.filter (r : SearchRequest) : List String := r.extensions.map toAsciiLowercase

def fingerprintText (lower : String → String) (r : SearchRequest) : String :=
  r.place ++ "|" ++ lower r.query ++ "|" ++ scopeText r.scope ++ "|" ++ toString r.limit ++ "|" ++
    ",".intercalate (r.filter.mergeSort fun a b => a ≤ b)

def cursorText (fingerprint generation offset : ℕ) : String :=
  "search:" ++ hex16 fingerprint ++ ":" ++ toString generation ++ ":" ++ toString offset

/-! ### What must hold -/

/-- The requests are for one list of results. -/
structure SameResults (lower : String → String) (a b : SearchRequest) : Prop where
  scope : a.scope = b.scope
  directory : a.scope = .currentDirectory →
    normalizeRelativeDirectory a.relativeDirectory = normalizeRelativeDirectory b.relativeDirectory
  query : trim (lower a.query) = trim (lower b.query)
  limit : a.limit = b.limit
  extensions : ∀ e, e ∈ a.filter ↔ e ∈ b.filter

/-- The requests may differ in the directory and the query. -/
structure SameOtherwise (a b : SearchRequest) : Prop where
  scope : a.scope = b.scope
  limit : a.limit = b.limit
  extensions : a.filter.Perm b.filter

/-- What follows a bar in one directory stands before a bar in the other query. -/
def Shifted (lower : String → String) (a b : SearchRequest) : Prop :=
  SameOtherwise a b ∧ ∃ w, a.place = b.place ++ "|" ++ w ∧ lower b.query = w ++ "|" ++ lower a.query

/-- Two directories differ in their backslashes. -/
def Backslashed (lower : String → String) (a b : SearchRequest) : Prop :=
  SameOtherwise a b ∧ a.scope = .currentDirectory ∧ lower a.query = lower b.query ∧
    a.place = b.place ∧
    normalizeRelativeDirectory a.relativeDirectory ≠ normalizeRelativeDirectory b.relativeDirectory

structure Unmixed (lower : String → String) (a b : SearchRequest) : Prop where
  shifted : ¬ Shifted lower a b
  shifted_back : ¬ Shifted lower b a
  backslashed : ¬ Backslashed lower a b

/-- The generation is an `i64`, and so is the number of the rows. -/
structure Indexed.Fits (x : Indexed) : Prop where
  generation : x.index.generation < 2 ^ 63
  entries : x.index.entries.length < 2 ^ 63
  found : x.found.length < 2 ^ 63

variable {lower : String → String} {a b r : SearchRequest}

lemma searchFingerprint_eq :
    searchFingerprint lower r = (fnv1a64 (fingerprintText lower r).toUTF8.data.toList).toNat :=
  rfl

/-! ### Numbers -/

/-- The digits of a number are digits. -/
lemma exists_digit_of_mem {radix n : ℕ} (hr : 1 < radix) {c : Char} (h : c ∈ Nat.toDigits radix n) :
    ∃ d < radix, c = d.digitChar := by
  induction n using Nat.strong_induction_on with
  | _ n ih =>
    rcases lt_or_ge n radix with hlt | hle
    · rw [Nat.toDigits_of_lt_base hlt, List.mem_singleton] at h
      exact ⟨n, hlt, h⟩
    · rw [Nat.toDigits_of_base_le hr hle, List.mem_append, List.mem_singleton] at h
      rcases h with h | h
      · exact ih _ (Nat.div_lt_self (by omega) hr) h
      · exact ⟨n % radix, Nat.mod_lt n (by omega), h⟩

/-- A character that is no digit is not in a number. -/
lemma not_mem_toDigits {radix n : ℕ} (hr : 1 < radix) {c : Char}
    (h : ∀ d < radix, c ≠ d.digitChar) : c ∉ Nat.toDigits radix n := fun hmem =>
  let ⟨d, hd, heq⟩ := exists_digit_of_mem hr hmem
  h d hd heq

lemma digit_digitChar {radix d : ℕ} (hr : radix ≤ 16) (hd : d < radix) :
    digit radix d.digitChar = some d := by
  have hall : ∀ radix ≤ 16, ∀ d < radix, digit radix d.digitChar = some d := by decide +kernel
  exact hall radix hr d hd

lemma foldlM_toDigits {radix n : ℕ} (hr : 1 < radix) (hr' : radix ≤ 16) :
    (Nat.toDigits radix n).foldlM (fun n c => (digit radix c).map (n * radix + ·)) 0 = some n := by
  induction n using Nat.strong_induction_on with
  | _ n ih =>
    rcases lt_or_ge n radix with hlt | hle
    · rw [Nat.toDigits_of_lt_base hlt]
      simp [digit_digitChar hr' hlt]
    · have hmod : n % radix < radix := Nat.mod_lt n (by omega)
      rw [Nat.toDigits_of_base_le hr hle, List.foldlM_append, ih _ (Nat.div_lt_self (by omega) hr)]
      simp [digit_digitChar hr' hmod, Nat.div_add_mod']

lemma parseUnsigned_of_not_mem {radix n : ℕ} {l : List Char} (hplus : '+' ∉ l) (hne : l ≠ [])
    (h : l.foldlM (fun n c => (digit radix c).map (n * radix + ·)) 0 = some n) (hn : n < 2 ^ 64) :
    parseUnsigned radix l = some n := by
  cases l with
  | nil => exact absurd rfl hne
  | cons c l =>
    have hc : c ≠ '+' := fun heq => hplus (heq ▸ List.mem_cons_self)
    unfold parseUnsigned
    split
    · rename_i heq
      exact absurd (List.cons.inj heq).1 hc
    · rw [if_neg hne, h]
      exact if_pos hn

/-- Zeros before a number change nothing, and the number is read back. -/
lemma parseUnsigned_toDigits {radix n : ℕ} (hr : 1 < radix) (hr' : radix ≤ 16) (hn : n < 2 ^ 64)
    (zeros : ℕ) :
    parseUnsigned radix (List.replicate zeros '0' ++ Nat.toDigits radix n) = some n := by
  have hplus : '+' ∉ Nat.toDigits radix n := not_mem_toDigits hr fun d hd => by
    have hall : ∀ d < 16, '+' ≠ Nat.digitChar d := by decide
    exact hall d (by omega)
  have hzeros : (List.replicate zeros '0').foldlM
      (fun n c => (digit radix c).map (n * radix + ·)) 0 = some 0 := by
    induction zeros with
    | zero => rfl
    | succ zeros ih =>
      have hzero : digit radix '0' = some 0 := digit_digitChar (d := 0) hr' (by omega)
      rw [List.replicate_succ, List.foldlM_cons, hzero]
      simpa using ih
  refine parseUnsigned_of_not_mem ?_ ?_ ?_ hn
  · simp [hplus]
  · simp [Nat.toDigits_ne_nil]
  · rw [List.foldlM_append, hzeros]
    exact foldlM_toDigits hr hr'

/-! ### Cursors -/

lemma cursorText_toList (fingerprint generation offset : ℕ) :
    (cursorText fingerprint generation offset).toList = [':'].intercalate
      ["search".toList, (hex16 fingerprint).toList, Nat.toDigits 10 generation,
        Nat.toDigits 10 offset] := by
  simp [cursorText, List.intercalate_cons_cons]

lemma colon_not_mem_toDigits {radix n : ℕ} (hr : 1 < radix) (hr' : radix ≤ 16) :
    ':' ∉ Nat.toDigits radix n := not_mem_toDigits hr fun d hd => by
  have hall : ∀ d < 16, ':' ≠ Nat.digitChar d := by decide
  exact hall d (by omega)

/-- **What is written is read back**, for the fingerprint that it was written with. -/
lemma parse_cursorText {print generation offset : ℕ} (print' : ℕ) (hp : print < 2 ^ 64)
    (hg : generation < 2 ^ 64) (ho : offset < 2 ^ 64) :
    parseSearchCursor (some (cursorText print generation offset)) print' =
      if print = print' then .ok (some generation, offset)
      else .error ⟨.cursorInvalidated,
        "file search cursor does not match this query and scope"⟩ := by
  have hsplit : (cursorText print generation offset).toList.splitOnP (· = ':') =
      ["search".toList, (hex16 print).toList, Nat.toDigits 10 generation,
        Nat.toDigits 10 offset] := by
    rw [cursorText_toList]
    refine List.splitOn_intercalate ':' ?_ (List.cons_ne_nil _ _)
    simp only [List.forall_mem_cons, List.not_mem_nil, false_imp_iff, implies_true, and_true]
    refine ⟨by decide, ?_, colon_not_mem_toDigits (by decide) (by decide),
      colon_not_mem_toDigits (by decide) (by decide)⟩
    simp [hex16, colon_not_mem_toDigits]
  have hprint : parseUnsigned 16 (hex16 print).toList = some print := by
    rw [hex16, String.toList_ofList]
    exact parseUnsigned_toDigits (by decide) (by decide) hp _
  have hnumber : ∀ n < 2 ^ 64, parseUnsigned 10 (Nat.toDigits 10 n) = some n := fun n hn =>
    parseUnsigned_toDigits (by decide) (by decide) hn 0
  have hne : cursorText print generation offset ≠ "" := fun h => by
    have h := congrArg String.toList h
    simp [cursorText] at h
  generalize cursorText print generation offset = cursor at hsplit hne ⊢
  unfold parseSearchCursor
  split
  · rename_i h
    exact absurd h (Option.some_ne_none _)
  · rename_i h
    exact absurd (Option.some.inj h) hne
  · rename_i h
    rw [← Option.some.inj h, hsplit]
    dsimp only
    rw [hprint, hnumber _ hg, hnumber _ ho]
    exact if_congr (and_iff_right rfl) rfl rfl

/-! ### Texts with separators -/

/-- The last separator is found again. -/
lemma append_cons_inj {α : Type} {c : α} {l l' t t' : List α} (h : l ++ c :: t = l' ++ c :: t')
    (ht : c ∉ t) (ht' : c ∉ t') : l = l' ∧ t = t' := by
  rcases List.append_eq_append_iff.mp h with ⟨m, rfl, hm⟩ | ⟨m, rfl, hm⟩
  · cases m with
    | nil => simpa using hm
    | cons d m =>
      refine absurd ?_ ht
      rw [(List.cons.inj hm).2]
      exact List.mem_append_right m List.mem_cons_self
  · cases m with
    | nil => simpa [eq_comm] using hm
    | cons d m =>
      refine absurd ?_ ht'
      rw [(List.cons.inj hm).2]
      exact List.mem_append_right m List.mem_cons_self

/-- Two texts with a separator in between are the same text as others, exactly if they are the
others, or what stands between two separators has gone from one to the other. -/
lemma append_cons_eq_iff {α : Type} {c : α} {l l' t t' : List α} : l ++ c :: t = l' ++ c :: t' ↔
    (l = l' ∧ t = t') ∨ (∃ w, l = l' ++ c :: w ∧ t' = w ++ c :: t) ∨
      ∃ w, l' = l ++ c :: w ∧ t = w ++ c :: t' := by
  constructor
  · intro h
    rcases List.append_eq_append_iff.mp h with ⟨m, rfl, hm⟩ | ⟨m, rfl, hm⟩
    · cases m with
      | nil => exact .inl (by simpa using hm)
      | cons d m =>
        obtain ⟨rfl, rfl⟩ := List.cons.inj hm
        exact .inr (.inr ⟨m, rfl, rfl⟩)
    · cases m with
      | nil => exact .inl (by simpa [eq_comm] using hm)
      | cons d m =>
        obtain ⟨rfl, rfl⟩ := List.cons.inj hm
        exact .inr (.inl ⟨m, rfl, rfl⟩)
  · rintro (⟨rfl, rfl⟩ | ⟨w, rfl, rfl⟩ | ⟨w, rfl, rfl⟩) <;> simp

lemma count_trim {c : Char} (hc : isWhitespace c = false) (q : String) :
    (trim q).toList.count c = q.toList.count c := by
  have hdrop : ∀ l : List Char, (l.dropWhile isWhitespace).count c = l.count c := by
    intro l
    induction l with
    | nil => rfl
    | cons d l ih =>
      rw [List.dropWhile_cons]
      split
      · rename_i hd
        have hne : d ≠ c := fun h => by simp [h, hc] at hd
        rw [ih, List.count_cons_of_ne hne]
      · rfl
  rw [trim, String.toList_ofList, List.count_reverse, hdrop, List.count_reverse, hdrop]

/-! ### The parts of a request -/

/-- An extension of the schema, in lower case, is not empty, and has no bar and no comma in it. -/
lemma filter_clean (hr : ∀ e ∈ r.extensions, isExtension e = true) {e : String}
    (he : e ∈ r.filter) : e.toList ≠ [] ∧ ',' ∉ e.toList ∧ '|' ∉ e.toList := by
  obtain ⟨x, hx, rfl⟩ := List.mem_map.mp he
  have hx := hr x hx
  unfold isExtension at hx
  split at hx
  · rename_i rest hrest
    obtain ⟨-, hall⟩ := Bool.and_eq_true_iff.mp hx
    have hnot : ∀ d : Char, d.val.toNat < 97 ∨ 122 < d.val.toNat → d ≠ '.' →
        d.isAlphanum = false → d ∉ (toAsciiLowercase x).toList := by
      intro d hd hdot halnum hmem
      rw [toAsciiLowercase, String.toList_ofList, hrest] at hmem
      obtain ⟨c, hc, heq⟩ := List.mem_map.mp hmem
      obtain rfl := eq_of_toLower_eq hd heq
      rcases List.mem_cons.mp hc with rfl | hc
      · exact hdot rfl
      · simp [List.all_eq_true.mp hall c hc] at halnum
    refine ⟨?_, hnot ',' (by decide) (by decide) (by decide),
      hnot '|' (by decide) (by decide) (by decide)⟩
    rw [toAsciiLowercase, String.toList_ofList, hrest]
    exact List.cons_ne_nil _ _
  · cases hx

/-- Texts that are joined by commas are found again. -/
lemma intercalate_inj {l l' : List String} (hl : ∀ e ∈ l, e.toList ≠ [] ∧ ',' ∉ e.toList)
    (hl' : ∀ e ∈ l', e.toList ≠ [] ∧ ',' ∉ e.toList) (h : ",".intercalate l = ",".intercalate l') :
    l = l' := by
  have h := congrArg String.toList h
  rw [String.toList_intercalate, String.toList_intercalate] at h
  have hsplit : ∀ l : List String, (∀ e ∈ l, e.toList ≠ [] ∧ ',' ∉ e.toList) → l ≠ [] →
      (",".toList.intercalate (l.map String.toList)).splitOn ',' = l.map String.toList := by
    intro l hl hne
    refine List.splitOn_intercalate ',' (fun x hx => ?_) (by simpa using hne)
    obtain ⟨e, he, rfl⟩ := List.mem_map.mp hx
    exact (hl e he).2
  -- nothing joined is the empty text, which is no extension
  have hempty : ∀ l : List String, (∀ e ∈ l, e.toList ≠ [] ∧ ',' ∉ e.toList) → l ≠ [] →
      ",".toList.intercalate (l.map String.toList) ≠ [] := by
    intro l hl hne heq
    have hs := hsplit l hl hne
    rw [heq] at hs
    have hmem : [] ∈ l.map String.toList := hs ▸ List.mem_singleton.mpr rfl
    obtain ⟨e, he, hnil⟩ := List.mem_map.mp hmem
    exact (hl e he).1 hnil
  by_cases hnil : l = []
  · by_cases hnil' : l' = []
    · rw [hnil, hnil']
    · subst hnil
      exact absurd h.symm (hempty l' hl' hnil')
  · by_cases hnil' : l' = []
    · subst hnil'
      exact absurd h (hempty l hl hnil)
    · have heq := (hsplit l hl hnil).symm.trans ((congrArg _ h).trans (hsplit l' hl' hnil'))
      exact List.map_injective_iff.mpr (fun _ _ => String.toList_inj.mp) heq

lemma mergeSort_eq_iff {l l' : List String} :
    (l.mergeSort fun a b => a ≤ b) = l'.mergeSort (fun a b => a ≤ b) ↔ l.Perm l' := by
  have hsorted : ∀ l : List String, (l.mergeSort fun a b => a ≤ b).Pairwise (· ≤ ·) := by
    intro l
    have h : (l.mergeSort fun a b => decide (a ≤ b)).Pairwise fun a b => decide (a ≤ b) = true :=
      List.pairwise_mergeSort
        (fun a b c h h' => by simpa using le_trans (by simpa using h) (by simpa using h'))
        (fun a b => by simpa using le_total a b) l
    simpa using h
  constructor
  · intro h
    exact (List.mergeSort_perm l _).symm.trans (h ▸ List.mergeSort_perm l' _)
  · intro h
    refine List.Perm.eq_of_pairwise (fun a b _ _ => le_antisymm) (hsorted l) (hsorted l') ?_
    exact (List.mergeSort_perm l _).trans (h.trans (List.mergeSort_perm l' _).symm)

lemma toDigits_inj {n m : ℕ} (h : Nat.toDigits 10 n = Nat.toDigits 10 m) : n = m := by
  have hn : (Nat.toDigits 10 n).foldlM (fun n c => (digit 10 c).map (n * 10 + ·)) 0 = some n :=
    foldlM_toDigits (by decide) (by decide)
  rw [h, foldlM_toDigits (by decide) (by decide)] at hn
  exact (Option.some.inj hn).symm

lemma scopeText_inj {scope scope' : IndexedSearchScope} (h : scopeText scope = scopeText scope') :
    scope = scope' := by
  cases scope with
  | currentDirectory =>
    cases scope' with
    | currentDirectory => rfl
    | managedRoot => exact absurd h (by decide)
  | managedRoot =>
    cases scope' with
    | currentDirectory => exact absurd h (by decide)
    | managedRoot => rfl

lemma fingerprintText_toList (lower : String → String) (r : SearchRequest) :
    (fingerprintText lower r).toList = (((r.place.toList ++ '|' :: (lower r.query).toList) ++
      '|' :: (scopeText r.scope).toList) ++ '|' :: Nat.toDigits 10 r.limit) ++
        '|' :: (",".intercalate (r.filter.mergeSort fun a b => a ≤ b)).toList := by
  simp [fingerprintText]

/-- Two requests have one text exactly if they agree in all but their directories and queries, and
these make up one text. -/
lemma fingerprintText_eq_iff (ha : ∀ e ∈ a.extensions, isExtension e = true)
    (hb : ∀ e ∈ b.extensions, isExtension e = true) :
    fingerprintText lower a = fingerprintText lower b ↔ SameOtherwise a b ∧
      a.place.toList ++ '|' :: (lower a.query).toList =
        b.place.toList ++ '|' :: (lower b.query).toList := by
  have hsorted : ∀ r : SearchRequest, (∀ e ∈ r.extensions, isExtension e = true) →
      ∀ e ∈ r.filter.mergeSort (fun a b => a ≤ b),
        e.toList ≠ [] ∧ ',' ∉ e.toList ∧ '|' ∉ e.toList := fun r hr e he =>
    filter_clean hr (List.mem_mergeSort.mp he)
  have hbar : ∀ r : SearchRequest, (∀ e ∈ r.extensions, isExtension e = true) →
      '|' ∉ (",".intercalate (r.filter.mergeSort fun a b => a ≤ b)).toList := by
    intro r hr hmem
    rw [String.toList_intercalate] at hmem
    rcases mem_intercalate hmem with h | ⟨x, hx, h⟩
    · exact absurd h (by decide)
    · obtain ⟨e, he, rfl⟩ := List.mem_map.mp hx
      exact (hsorted r hr e he).2.2 h
  have hdigits : ∀ n : ℕ, '|' ∉ Nat.toDigits 10 n := fun n => by
    refine not_mem_toDigits (by decide) fun d hd => ?_
    have hall : ∀ d < 10, '|' ≠ Nat.digitChar d := by decide
    exact hall d hd
  have hscope : ∀ scope, '|' ∉ (scopeText scope).toList := fun scope => by cases scope <;> decide
  rw [← String.toList_inj, fingerprintText_toList, fingerprintText_toList]
  constructor
  · intro h
    obtain ⟨h, hext⟩ := append_cons_inj h (hbar a ha) (hbar b hb)
    obtain ⟨h, hlimit⟩ := append_cons_inj h (hdigits _) (hdigits _)
    obtain ⟨h, hscopes⟩ := append_cons_inj h (hscope _) (hscope _)
    refine ⟨⟨?_, toDigits_inj hlimit, ?_⟩, h⟩
    · exact scopeText_inj (String.toList_inj.mp hscopes)
    · exact mergeSort_eq_iff.mp (intercalate_inj
        (fun e he => ⟨(hsorted a ha e he).1, (hsorted a ha e he).2.1⟩)
        (fun e he => ⟨(hsorted b hb e he).1, (hsorted b hb e he).2.1⟩) (String.toList_inj.mp hext))
  · rintro ⟨hsame, h⟩
    rw [h, hsame.scope, hsame.limit, mergeSort_eq_iff.mpr hsame.extensions]

/-! ### Which cursors are accepted -/

/-- **The fingerprints tell the lists of results apart**, exactly if no text goes from one part of
a request to another. -/
lemma sameResults_iff (ha : ∀ e ∈ a.extensions, isExtension e = true)
    (hb : ∀ e ∈ b.extensions, isExtension e = true) :
    (fingerprintText lower a = fingerprintText lower b → SameResults lower a b) ↔
      Unmixed lower a b := by
  have hbars : ∀ {q w q' : String}, q = w ++ "|" ++ q' → trim q ≠ trim q' := by
    intro q w q' hq heq
    have hcount := congrArg (fun t : String => t.toList.count '|') heq
    simp only [count_trim (by decide : isWhitespace '|' = false), hq, String.toList_append,
      List.count_append] at hcount
    have hone : "|".toList.count '|' = 1 := by decide
    omega
  rw [fingerprintText_eq_iff ha hb]
  constructor
  · intro h
    refine ⟨?_, ?_, ?_⟩
    · rintro ⟨hsame, w, hplace, hquery⟩
      refine hbars hquery (h ⟨hsame, append_cons_eq_iff.mpr (.inr (.inl ?_))⟩).query.symm
      exact ⟨w.toList, by simp [hplace], by simp [hquery]⟩
    · rintro ⟨hsame, w, hplace, hquery⟩
      have hsame : SameOtherwise a b := ⟨hsame.scope.symm, hsame.limit.symm, hsame.extensions.symm⟩
      refine hbars hquery (h ⟨hsame, append_cons_eq_iff.mpr (.inr (.inr ?_))⟩).query
      exact ⟨w.toList, by simp [hplace], by simp [hquery]⟩
    · rintro ⟨hsame, hscope, hquery, hplace, hne⟩
      exact hne ((h ⟨hsame, by rw [hplace, hquery]⟩).directory hscope)
  · rintro hu ⟨hsame, h⟩
    rcases append_cons_eq_iff.mp h with ⟨hplace, hquery⟩ | ⟨w, hplace, hquery⟩ | ⟨w, hplace, hquery⟩
    · rw [String.toList_inj] at hplace hquery
      refine ⟨hsame.scope, fun hscope => ?_, congrArg trim hquery, hsame.limit,
        fun e => hsame.extensions.mem_iff⟩
      by_contra hne
      exact hu.backslashed ⟨hsame, hscope, hquery, hplace, hne⟩
    · refine absurd ⟨hsame, String.ofList w, ?_, ?_⟩ hu.shifted
      · simp [← String.toList_inj, hplace]
      · simp [← String.toList_inj, hquery]
    · refine absurd ⟨⟨hsame.scope.symm, hsame.limit.symm, hsame.extensions.symm⟩,
        String.ofList w, ?_, ?_⟩ hu.shifted_back
      · simp [← String.toList_inj, hplace]
      · simp [← String.toList_inj, hquery]

variable {s : Sys} {root : RawPath} {x : Indexed} {result : AgentFileBrowseResult}

/-- The cursor and the generation of a page. -/
lemma nextCursor_of_build (h : buildSearchResultPageLimited s lower root x r = .ok result) :
    ∃ ix q offset, Searches s root lower x r ix q offset ∧
      result.nextCursor =
        (Paging.page (q.hit s.tree) q.limit FETCH_BATCH (q.rows ix) offset).next.map
          (cursorText (searchFingerprint lower r) ix.generation) ∧
      result.desktopGeneration = toString ix.generation := by
  unfold buildSearchResultPageLimited at h
  obtain ⟨_, hl, h⟩ := bind_eq_ok.mp h
  obtain ⟨⟨generation, offset⟩, hc, h⟩ := bind_eq_ok.mp h
  obtain ⟨ix, hix, h⟩ := bind_eq_ok.mp h
  obtain ⟨page, hp, h⟩ := bind_eq_ok.mp h
  have hp := mapError_eq_ok.mp hp
  obtain ⟨hgen, -, q, hq⟩ := search_current hp
  rw [search_ok hq hgen] at hp
  cases hp
  cases h
  exact ⟨ix, q, offset,
    ⟨validatePageLimit_ok.mp hl, mapError_eq_ok.mp hix, hq, generation, hc, hgen⟩, rfl, rfl⟩

lemma exists_nextCursor {ix : FileIndex} {q : Search} {offset next : ℕ}
    (hs : Searches s root lower x r ix q offset)
    (hn : (Paging.page (q.hit s.tree) q.limit FETCH_BATCH (q.rows ix) offset).next = some next) :
    ∃ result, buildSearchResultPageLimited s lower root x r = .ok result ∧
      result.nextCursor = some (cursorText (searchFingerprint lower r) ix.generation next) := by
  obtain ⟨result, h⟩ := exists_searchPage hs
  obtain ⟨ix', q', offset', hs', hnext, -⟩ := nextCursor_of_build h
  obtain ⟨rfl, rfl, rfl⟩ := hs.unique hs'
  exact ⟨result, h, by rw [hnext, hn]; rfl⟩

/-- The numbers in a cursor have 64 bits. -/
lemma Searches.fits {ix : FileIndex} {q : Search} {offset : ℕ}
    (h : Searches s root lower x r ix q offset) (hx : x.Fits) :
    ix.generation < 2 ^ 63 ∧ ix.entries.length < 2 ^ 63 := by
  obtain ⟨_, -, hix⟩ := bind_eq_ok.mp h.index
  split at hix
  · cases hix
    exact ⟨hx.generation, hx.entries⟩
  · unfold reindexRoot at hix
    split at hix
    · split at hix
      · obtain ⟨g, hg, hix⟩ := bind_eq_ok.mp hix
        cases hix
        unfold bumpGeneration at hg
        split at hg
        · rename_i hlt
          cases hg
          exact ⟨hlt, by simpa using hx.found⟩
        · cases hg
      · cases hix
    · cases hix

lemma length_rows_le (q : Search) (ix : FileIndex) : (q.rows ix).length ≤ ix.entries.length := by
  rw [Search.rows, List.length_mergeSort]
  exact List.length_filter_le _ _

lemma searchFingerprint_lt (lower : String → String) (r : SearchRequest) :
    searchFingerprint lower r < 2 ^ 64 := by
  rw [searchFingerprint_eq]
  exact UInt64.toNat_lt _

/-- **Search cursors bind their request.** What a cursor says is read back, a page for it is of the
same index, and it is accepted for no other list of results, exactly if no text goes from one part
of a request to another. -/
theorem cursors_bind_iff (lower : String → String) {a b : SearchRequest}
    (ha : ∀ e ∈ a.extensions, isExtension e = true) (hb : ∀ e ∈ b.extensions, isExtension e = true)
    (hfnv : searchFingerprint lower a = searchFingerprint lower b →
      fingerprintText lower a = fingerprintText lower b)
    {s : Sys} {root : RawPath} {x : Indexed} (hx : x.Fits) {result : AgentFileBrowseResult}
    (h : buildSearchResultPageLimited s lower root x a = .ok result) {c : String}
    (hc : result.nextCursor = some c) :
    (∃ ix q offset next, Searches s root lower x a ix q offset ∧
      (Paging.page (q.hit s.tree) q.limit FETCH_BATCH (q.rows ix) offset).next = some next ∧
      parseSearchCursor (some c) (searchFingerprint lower a) = .ok (some ix.generation, next)) ∧
    (∀ s' root' x' result', buildSearchResultPageLimited s' lower root' x'
      { b with cursor := some c } = .ok result' →
        result'.desktopGeneration = result.desktopGeneration) ∧
    (((parseSearchCursor (some c) (searchFingerprint lower b)).isOk = true →
      SameResults lower a b) ↔ Unmixed lower a b) := by
  obtain ⟨ix, q, offset, hs, hnext, hgen⟩ := nextCursor_of_build h
  obtain ⟨next, hn, rfl⟩ := Option.map_eq_some_iff.mp (hnext.symm.trans hc)
  obtain ⟨hfits, hlen⟩ := hs.fits hx
  have hlt : next < (q.rows ix).length :=
    ((Paging.page_splits (q.hit s.tree) (by decide : 0 < FETCH_BATCH) (checkArgs_limit hs.args)
      (q.rows ix) offset).2 next hn).2.1
  have hle := length_rows_le q ix
  have hparse := fun print' => parse_cursorText print' (searchFingerprint_lt lower a)
    (by omega : ix.generation < 2 ^ 64) (by omega : next < 2 ^ 64)
  refine ⟨⟨ix, q, offset, next, hs, hn, (hparse _).trans (if_pos rfl)⟩, ?_, ?_⟩
  · intro s' root' x' result' h'
    obtain ⟨ix', q', offset', hs', -, hgen'⟩ := nextCursor_of_build h'
    obtain ⟨generation, hp, hcurrent⟩ := hs'.cursor
    rw [hparse] at hp
    split at hp
    · obtain ⟨rfl, -⟩ := Prod.mk.inj (Except.ok.inj hp)
      rw [hgen', hgen, hcurrent _ rfl]
    · cases hp
  · rw [← sameResults_iff ha hb, hparse]
    refine imp_congr_left ⟨fun hok => ?_, fun htext => ?_⟩
    · by_cases heq : searchFingerprint lower a = searchFingerprint lower b
      · exact hfnv heq
      · rw [if_neg heq] at hok
        cases hok
    · rw [if_pos (by rw [searchFingerprint_eq, searchFingerprint_eq, htext])]
      rfl

/-! ### Samples -/

def noteRoot : Path := [⟨"root", validName_root⟩]

/-- Two notes in a managed root. -/
def withNotes : Sys := .fresh
  [(noteRoot, .dir 1), (noteRoot ++ [⟨"b|notes 1", by decide⟩], .file [1] none 2),
    (noteRoot ++ [⟨"b|notes 2", by decide⟩], .file [2] none 3)]

def noteRow (name : String) : SearchRow :=
  { name := name, relativePath := name, isDir := false, extension := none, sizeBytes := some 1
    modifiedUnixMs := none, parentRelativePath := "", normalizedName := name }

def noteIndex : FileIndex where
  files := []
  entries := [noteRow "b|notes 1", noteRow "b|notes 2"]
  generation := 1
  initialized := true
  uniqueFiles := List.nodup_nil
  uniqueEntries := by decide

/-- One note a page, from the whole root. -/
def noteRequest (relativeDirectory query : String) : SearchRequest :=
  ⟨relativeDirectory, query, .managedRoot, none, 1, []⟩

def noteSearch (directory query : String) : Search :=
  ⟨⟨noteRoot⟩, query, .managedRoot, directory, 1, []⟩

lemma note_cursor (directory query : String)
    (hargs : checkArgs toAsciiLowercase withNotes.tree
      ((noteRequest directory query).args noteRoot.raw) = .ok (noteSearch directory query))
    (hrows : noteIndex.entries.filter (selects .managedRoot directory query) = noteIndex.entries)
    (hn : (Paging.page ((noteSearch directory query).hit withNotes.tree) 1 FETCH_BATCH
      noteIndex.entries 0).next = some 1) :
    ∃ result, buildSearchResultPageLimited withNotes toAsciiLowercase noteRoot.raw
        ⟨noteIndex, [], []⟩ (noteRequest directory query) = .ok result ∧
      result.nextCursor = some (cursorText
        (searchFingerprint toAsciiLowercase (noteRequest directory query)) noteIndex.generation
        1) := by
  have hs : Searches withNotes noteRoot.raw toAsciiLowercase ⟨noteIndex, [], []⟩
      (noteRequest directory query) noteIndex (noteSearch directory query) 0 :=
    ⟨⟨le_rfl, by simp [noteRequest, PAGE_SIZE]⟩, rfl, hargs, none, rfl, nofun⟩
  have hsorted : (noteSearch directory query).rows noteIndex = noteIndex.entries := by
    rw [Search.rows, noteSearch, hrows]
    exact List.mergeSort_of_pairwise (by decide +kernel)
  have hnext : (Paging.page ((noteSearch directory query).hit withNotes.tree)
      (noteSearch directory query).limit FETCH_BATCH ((noteSearch directory query).rows noteIndex)
      0).next = some 1 := by
    rw [hsorted]
    exact hn
  exact exists_nextCursor hs hnext

lemma noteRequest_extensions (directory query : String) :
    ∀ e ∈ (noteRequest directory query).extensions, isExtension e = true :=
  fun _ he => absurd he List.not_mem_nil

lemma noteRequest_not_shifted (lower : String → String) (query query' : String) :
    ¬ Shifted lower (noteRequest "" query) (noteRequest "" query') := by
  rintro ⟨-, w, hplace, -⟩
  have h := congrArg String.toList hplace
  simp [noteRequest, SearchRequest.place] at h

theorem cursors_bind_iff_sample : SameResults toAsciiLowercase (noteRequest "" "notes")
    (noteRequest "" "NOTES") := by
  obtain ⟨result, h, hc⟩ := note_cursor "" "notes" rfl (by decide +kernel)
    (by decide +kernel)
  have htext : fingerprintText toAsciiLowercase (noteRequest "" "notes") =
      fingerprintText toAsciiLowercase (noteRequest "" "NOTES") :=
    (fingerprintText_eq_iff (noteRequest_extensions _ _) (noteRequest_extensions _ _)).mpr
      ⟨⟨rfl, rfl, .refl _⟩, by decide +kernel⟩
  have hbind := cursors_bind_iff toAsciiLowercase (noteRequest_extensions _ _)
    (noteRequest_extensions _ _) (fun _ => htext) ⟨by decide, by decide, by decide⟩ h hc
  refine hbind.2.2.mpr ⟨noteRequest_not_shifted _ _ _, noteRequest_not_shifted _ _ _, ?_⟩ ?_
  · rintro ⟨-, hscope, -⟩
    cases hscope
  · rw [parse_cursorText _ (searchFingerprint_lt _ _) (by decide) (by decide),
      if_pos (by rw [searchFingerprint_eq, searchFingerprint_eq, htext])]
    rfl

/-- The notes that begin with a bar are searched from one directory, and the next page is given for
the other notes from another directory. -/
theorem not_cursors_bind : ¬ ∀ (lower : String → String) (a b : SearchRequest),
    (∀ e ∈ a.extensions, isExtension e = true) → (∀ e ∈ b.extensions, isExtension e = true) →
    Contracts.relativeDirectorySchema a.relativeDirectory = true →
    Contracts.relativeDirectorySchema b.relativeDirectory = true →
    (searchFingerprint lower a = searchFingerprint lower b →
      fingerprintText lower a = fingerprintText lower b) →
    ∀ (s : Sys) (root : RawPath) (x : Indexed) (result : AgentFileBrowseResult) (c : String),
      x.Fits → buildSearchResultPageLimited s lower root x a = .ok result →
        result.nextCursor = some c →
          (parseSearchCursor (some c) (searchFingerprint lower b)).isOk = true →
            SameResults lower a b := by
  intro hall
  obtain ⟨result, h, hc⟩ := note_cursor "a" "b|notes" rfl
    (by decide +kernel) (by decide +kernel)
  have htext : fingerprintText toAsciiLowercase (noteRequest "a" "b|notes") =
      fingerprintText toAsciiLowercase (noteRequest "a|b" "notes") :=
    (fingerprintText_eq_iff (noteRequest_extensions _ _) (noteRequest_extensions _ _)).mpr
      ⟨⟨rfl, rfl, .refl _⟩, by decide +kernel⟩
  have hsame := hall toAsciiLowercase _ (noteRequest "a|b" "notes") (noteRequest_extensions _ _)
    (noteRequest_extensions _ _) (by decide +kernel) (by decide +kernel) (fun _ => htext) _ _ _
    result _ ⟨by decide, by decide, by decide⟩ h hc
  have hquery := (hsame ?_).query
  · exact absurd hquery (by decide +kernel)
  · rw [parse_cursorText _ (searchFingerprint_lt _ _) (by decide) (by decide),
      if_pos (by rw [searchFingerprint_eq, searchFingerprint_eq, htext])]
    rfl

end MouseKeeper.Desktop.RemoteView
