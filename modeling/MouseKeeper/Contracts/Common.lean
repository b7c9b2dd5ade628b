import Mathlib.Algebra.GroupWithZero.Nat
import MouseKeeper.Posix.Text

/-!
What the schemas of the contracts package share: JSON values, text as JavaScript measures and
trims it, and the check of relative paths.

A schema is a function from JSON to the value it lets through.
-/

namespace MouseKeeper.Contracts

open Posix

/-! ### JSON -/

/-- A parsed JSON value. A number is the value of a double, which is never read as one. -/
inductive Json
  | null
  | bool (b : Bool)
  | num (q : Rat)
  | str (s : String)
  | arr (items : List Json)
  | obj (fields : List (String × Json))

/-- The fields of an object. -/
abbrev Fields := List (String × Json)

def Fields.get (fields : Fields) (key : String) : Option Json :=
  (fields.find? fun f => f.1 = key).map (·.2)

def Fields.only (fields : Fields) (keys : List String) : Bool := fields.all fun f => f.1 ∈ keys

namespace Json

def asStr : Json → Option String
  | .str s => some s
  | _ => none

def asArr : Json → Option (List Json)
  | .arr items => some items
  | _ => none

def asObj : Json → Option Fields
  | .obj fields => some fields
  | _ => none

/-- `z.object({ … }).strict()`. -/
def strict (keys : List String) (j : Json) : Option Fields := do
  let fields ← j.asObj
  if fields.only keys then some fields else none

def MAX_SAFE_INTEGER : ℕ := 2 ^ 53 - 1

/-- `z.number().int().nonnegative()`. -/
def asNat : Json → Option ℕ
  | .num q => if q.den = 1 ∧ 0 ≤ q.num ∧ q.num.toNat ≤ MAX_SAFE_INTEGER then some q.num.toNat
    else none
  | _ => none

def ofNat (n : ℕ) : Json := .num n

end Json

/-! ### Text -/

/-- `length`, in UTF-16 code units. -/
def length (s : String) : ℕ := (s.toList.map fun c => if 0x10000 ≤ c.toNat then 2 else 1).sum

/-- White space and line ends of JavaScript. -/
def isWhiteSpace (c : Char) : Bool :=
  (9 ≤ c.toNat && c.toNat ≤ 13) || (0x2000 ≤ c.toNat && c.toNat ≤ 0x200a) ||
    [0x20, 0xa0, 0x1680, 0x2028, 0x2029, 0x202f, 0x205f, 0x3000, 0xfeff].contains c.toNat

/-- `String.prototype.trim`. -/
def trim (s : String) : String :=
  String.ofList ((s.toList.dropWhile isWhiteSpace).reverse.dropWhile isWhiteSpace).reverse

/-- What `.` does not match in a pattern. -/
def isLineTerminator (c : Char) : Bool := [0xa, 0xd, 0x2028, 0x2029].contains c.toNat

/-- `z.string().trim().min(1).max(…)`. -/
def trimmed (max : ℕ) (s : String) : Option String :=
  if trim s ≠ "" ∧ length (trim s) ≤ max then some (trim s) else none

/-! ### Paths -/

def reservedFileNames : List String :=
  ["con", "prn", "aux", "nul", "com1", "com2", "com3", "com4", "com5", "com6", "com7", "com8",
    "com9", "lpt1", "lpt2", "lpt3", "lpt4", "lpt5", "lpt6", "lpt7", "lpt8", "lpt9"]

/-- `windowsReservedFileNamePattern`. -/
def isWindowsReservedFileName (segment : List Char) : Bool :=
  String.ofList ((segment.takeWhile (· ≠ '.')).map Char.toLower) ∈ reservedFileNames &&
    (segment.dropWhile (· ≠ '.')).all fun c => !isLineTerminator c

def isSafePathSegment (segment : List Char) : Bool :=
  segment ≠ [] && segment ≠ ['.'] && segment ≠ ['.', '.'] && !isWindowsReservedFileName segment

/-- A backslash for a slash. -/
def slashed (c : Char) : Char := if c = '\\' then '/' else c

/-- `split(/[\\/]/)`. -/
def segments (value : String) : List (List Char) := splitSlash (value.toList.map slashed)

/-- `/^[A-Za-z]:/`. -/
def hasDriveLetter (value : String) : Bool :=
  match value.toList with
  | c :: ':' :: _ => c.isAlpha
  | _ => false

def relativePathSchema (value : String) : Bool :=
  value ≠ "" && length value ≤ 1024 && '\x00' ∉ value.toList && value.toList.head? ≠ some '/' &&
    value.toList.head? ≠ some '\\' && !hasDriveLetter value && (segments value).all isSafePathSegment

def relativeDirectorySchema (value : String) : Bool := relativePathSchema value || value = ""

def fileNameSchema (value : String) : Bool :=
  value ≠ "" && length value ≤ 255 && value = trim value && '\x00' ∉ value.toList &&
    '/' ∉ value.toList && '\\' ∉ value.toList && isSafePathSegment value.toList

/-- `/^\.[a-z0-9]+$/i`. -/
def isExtension (value : String) : Bool :=
  match value.toList with
  | '.' :: rest => rest ≠ [] && rest.all Char.isAlphanum
  | _ => false

/-! ### Lists -/

/-- What a list was made of. -/
lemma mem_of_mapM {α β : Type} {f : α → Option β} {l : List α} {l' : List β}
    (h : l.mapM f = some l') : ∀ b ∈ l', ∃ a ∈ l, f a = some b := by
  induction l generalizing l' with
  | nil =>
    cases h
    exact fun b hb => absurd hb List.not_mem_nil
  | cons a l ih =>
    simp only [List.mapM_cons, Option.bind_eq_bind, Option.bind_eq_some_iff] at h
    obtain ⟨b, hb, bs, hbs, h⟩ := h
    cases h
    intro x hx
    rcases List.mem_cons.mp hx with rfl | hx
    · exact ⟨a, List.mem_cons_self, hb⟩
    · obtain ⟨y, hy, hf⟩ := ih hbs x hx
      exact ⟨y, List.mem_cons_of_mem a hy, hf⟩

/-! ### Pieces of a path -/

lemma splitSlash_map_slashed (l : List Char) :
    splitSlash (l.map slashed) = (splitSlash l).flatMap fun x => splitSlash (x.map slashed) := by
  induction l with
  | nil => rfl
  | cons c l ih =>
    by_cases hc : c = '/'
    · subst hc
      have hs : slashed '/' = '/' := rfl
      simp only [List.map_cons, hs, splitSlash, if_pos, ih, List.flatMap_cons, List.map_nil,
        List.singleton_append]
    · obtain ⟨x, xs, hx⟩ := List.exists_cons_of_ne_nil (splitSlash_ne_nil l)
      obtain ⟨y, ys, hy⟩ := List.exists_cons_of_ne_nil (splitSlash_ne_nil (x.map slashed))
      have hcons : splitSlash (c :: l) = (c :: x) :: xs := by simp [splitSlash, hc, hx]
      rw [hx, List.flatMap_cons, hy] at ih
      rw [hcons, List.flatMap_cons, List.map_cons, List.map_cons]
      by_cases hs : slashed c = '/'
      · simp [splitSlash, hs, ih, hy]
      · simp [splitSlash, hs, ih, hy]

/-- A piece between slashes that has no backslash is a segment. -/
lemma mem_segments {value : String} {x : List Char} (h : x ∈ splitSlash value.toList)
    (hx : '\\' ∉ x) : x ∈ segments value := by
  have hmap : x.map slashed = x := by
    conv_rhs => rw [← List.map_id x]
    refine List.map_congr_left fun c hc => ?_
    have hne : c ≠ '\\' := fun h => hx (h ▸ hc)
    exact if_neg hne
  rw [segments, splitSlash_map_slashed]
  refine List.mem_flatMap.mpr ⟨x, h, ?_⟩
  rw [hmap, splitSlash_of_not_mem (not_mem_splitSlash h)]
  exact List.mem_singleton_self x

/-- What the schema lets through is the text of a place. -/
lemma relativePath_text {value : String} (h : relativePathSchema value = true) :
    ∃ p : Path, p ≠ [] ∧ value = p.text := by
  simp only [relativePathSchema, Bool.and_eq_true, List.all_eq_true] at h
  refine exists_text fun x hx => ?_
  have hsafe : ∀ y, '\\' ∉ y → isSafePathSegment y = false → x ≠ y := by
    rintro y hy hno rfl
    have hs := h.2 x (mem_segments hx hy)
    rw [hno] at hs
    cases hs
  exact ⟨hsafe _ (by decide) (by decide), hsafe _ (by decide) (by decide),
    hsafe _ (by decide) (by decide)⟩

lemma isSafePathSegment_of_length {segment : List Char} (hdot : '.' ∉ segment)
    (h : 4 < segment.length) : isSafePathSegment segment := by
  have hshort : ∀ name ∈ reservedFileNames, name.toList.length ≤ 4 := by decide
  have hstem : segment.takeWhile (· ≠ '.') = segment :=
    List.takeWhile_eq_self_iff.mpr fun c hc =>
      decide_eq_true fun heq : c = '.' => hdot (heq ▸ hc)
  have hreserved : isWindowsReservedFileName segment = false := by
    rw [isWindowsReservedFileName, hstem, Bool.and_eq_false_iff, decide_eq_false_iff_not]
    refine .inl fun hmem => ?_
    have hlen := hshort _ hmem
    rw [String.toList_ofList, List.length_map] at hlen
    omega
  have hne : ∀ l : List Char, l.length ≤ 4 → segment ≠ l := by
    rintro l hl rfl
    omega
  simp [isSafePathSegment, hreserved, hne [] (by decide), hne ['.'] (by decide),
    hne ['.', '.'] (by decide)]

/-- One name of plain characters is a path. -/
lemma relativePathSchema_ofList {l : List Char}
    (h : ∀ c ∈ l, c ∉ ['/', '\\', '.', ':', '\x00'] ∧ c.toNat < 0x10000) (hmin : 4 < l.length)
    (hmax : l.length ≤ 1024) : relativePathSchema (String.ofList l) := by
  have hno : ∀ c ∈ ['/', '\\', '.', ':', '\x00'], c ∉ l := fun c hc hl => (h c hl).1 hc
  have hslashed : l.map slashed = l := by
    conv_rhs => rw [← List.map_id l]
    exact List.map_congr_left fun c hc =>
      if_neg fun heq : c = '\\' => hno '\\' (by decide) (heq ▸ hc)
  have hsegments : segments (String.ofList l) = [l] := by
    rw [segments, String.toList_ofList, hslashed, splitSlash_of_not_mem (hno '/' (by decide))]
  have hlength : length (String.ofList l) = l.length := by
    rw [length, String.toList_ofList, List.map_congr_left (g := fun _ => 1)
      fun c hc => if_neg (not_le.mpr (h c hc).2)]
    simp
  have hhead : ∀ c ∈ ['/', '\\', '.', ':', '\x00'], l.head? ≠ some c :=
    fun c hc heq => hno c hc (List.mem_of_mem_head? heq)
  have hdrive : hasDriveLetter (String.ofList l) = false := by
    rw [hasDriveLetter, String.toList_ofList]
    split
    · rename_i c rest
      exact absurd (by simp) (hno ':' (by decide))
    · rfl
  have hne : String.ofList l ≠ "" := by
    intro heq
    have := congrArg String.toList heq
    rw [String.toList_ofList] at this
    rw [this] at hmin
    exact absurd hmin (by decide)
  have hsafe := isSafePathSegment_of_length (hno '.' (by decide)) hmin
  simp [relativePathSchema, hne, hlength, hmax, hno '\x00' (by decide), hhead '/' (by decide),
    hhead '\\' (by decide), hdrive, hsegments, hsafe, String.toList_ofList]

end MouseKeeper.Contracts
