import Mathlib.Data.Nat.Notation
import Mathlib.Logic.Function.Basic
import Mathlib.Tactic.Common

/-!
JSON values as JavaScript has them, and their texts.

A string is the list of its code units, which need not pair up as surrogates. The entries of an
object come in an order. A text in which that order is kept can be read back: no text of a value
goes on as that of another where a comma, a bracket or the end comes next.
-/

namespace MouseKeeper.Server.CanonicalJson

abbrev JsString := List ℕ

def units (s : String) : JsString := s.toList.map Char.toNat

inductive Json (N : Type)
  | null
  | bool (b : Bool)
  | num (n : N)
  | str (s : JsString)
  | arr (items : List (Json N))
  | obj (entries : List (JsString × Json N))

/-- What is written of numbers, which are told apart by their texts. -/
structure NumberText (N : Type) where
  text : N → JsString
  injective : Function.Injective text
  ne_nil : ∀ n, text n ≠ []
  units : ∀ n, ∀ c ∈ text n, c ∈ units "0123456789+-.e"

/-! ### Strings -/

def isHigh (c : ℕ) : Bool := 0xD800 ≤ c ∧ c ≤ 0xDBFF

def isLow (c : ℕ) : Bool := 0xDC00 ≤ c ∧ c ≤ 0xDFFF

/-- A code point of a string: two surrogates that pair up, or one unit. -/
inductive Piece
  | pair (high low : ℕ)
  | unit (c : ℕ)
  deriving DecidableEq

def pieces : JsString → List Piece
  | [] => []
  | [c] => [.unit c]
  | high :: low :: rest =>
    if isHigh high && isLow low then .pair high low :: pieces rest
    else .unit high :: pieces (low :: rest)

/-- The units that have a letter of their own behind a backslash. -/
def escapes : List (ℕ × ℕ) :=
  [(8, 98), (9, 116), (10, 110), (12, 102), (13, 114), (34, 34), (92, 92)]

def escapeLetter (c : ℕ) : Option ℕ := (escapes.find? fun e => e.1 = c).map Prod.snd

def hexDigit (d : ℕ) : ℕ := (Nat.digitChar d).toNat

def hex4 (c : ℕ) : JsString :=
  [hexDigit (c / 4096), hexDigit (c / 256 % 16), hexDigit (c / 16 % 16), hexDigit (c % 16)]

def Piece.text : Piece → JsString
  | .pair high low => [high, low]
  | .unit c =>
    match escapeLetter c with
    | some letter => [92, letter]
    | none => if c < 32 ∨ isHigh c ∨ isLow c then 92 :: 117 :: hex4 c else [c]

/-- `JSON.stringify` of a string. -/
def quote (s : JsString) : JsString := 34 :: ((pieces s).flatMap Piece.text ++ [34])

/-! ### Values -/

/-- `join(',')` -/
def join : List JsString → JsString
  | [] => []
  | first :: rest => first ++ rest.flatMap (44 :: ·)

section Induction

variable {N : Type}

lemma sizeOf_entry_lt {entries : List (JsString × Json N)} {e : JsString × Json N}
    (h : e ∈ entries) : sizeOf e.2 < sizeOf entries := by
  have hlt := List.sizeOf_lt_of_mem h
  obtain ⟨k, v⟩ := e
  simp only [Prod.mk.sizeOf_spec] at hlt ⊢
  omega

@[elab_as_elim] theorem Json.ind {motive : Json N → Prop} (null : motive .null)
    (bool : ∀ b, motive (.bool b)) (num : ∀ n, motive (.num n)) (str : ∀ s, motive (.str s))
    (arr : ∀ items, (∀ v ∈ items, motive v) → motive (.arr items))
    (obj : ∀ entries, (∀ e ∈ entries, motive e.2) → motive (.obj entries)) : ∀ v, motive v
  | .null => null
  | .bool b => bool b
  | .num n => num n
  | .str s => str s
  | .arr items => arr items fun v _ => Json.ind null bool num str arr obj v
  | .obj entries => obj entries fun e _ => Json.ind null bool num str arr obj e.2
termination_by v => sizeOf v
decreasing_by
  · have := List.sizeOf_lt_of_mem ‹_›
    simp only [Json.arr.sizeOf_spec]
    omega
  · have := sizeOf_entry_lt ‹_›
    simp only [Json.obj.sizeOf_spec]
    omega

end Induction

variable {N : Type} (numbers : NumberText N)

/-- The text of a value with its entries as they come. -/
def text : Json N → JsString
  | .null => units "null"
  | .bool b => units (if b then "true" else "false")
  | .num n => numbers.text n
  | .str s => quote s
  | .arr items => 91 :: (join (items.map fun item => text item) ++ [93])
  | .obj entries =>
    123 :: (join (entries.map fun entry => quote entry.1 ++ 58 :: text entry.2) ++ [125])
termination_by v => sizeOf v
decreasing_by
  · have := List.sizeOf_lt_of_mem ‹_›
    simp only [Json.arr.sizeOf_spec]
    omega
  · have := sizeOf_entry_lt ‹_›
    simp only [Json.obj.sizeOf_spec]
    omega

/-! ### Strings are read back -/

variable {x y : JsString}

/-- A valid piece: its surrogates pair up. -/
def Piece.Valid : Piece → Prop
  | .pair high low => isHigh high = true ∧ isLow low = true
  | .unit _ => True

def Piece.units : Piece → JsString
  | .pair high low => [high, low]
  | .unit c => [c]

lemma pieces_valid (s : JsString) : ∀ p ∈ pieces s, p.Valid := by
  fun_induction pieces s with
  | case1 => simp
  | case2 c => simp [Piece.Valid]
  | case3 high low rest h ih =>
    rw [Bool.and_eq_true] at h
    exact List.forall_mem_cons.mpr ⟨h, ih⟩
  | case4 high low rest h ih => exact List.forall_mem_cons.mpr ⟨trivial, ih⟩

lemma flatMap_pieces (s : JsString) : (pieces s).flatMap Piece.units = s := by
  fun_induction pieces s with
  | case1 => rfl
  | case2 c => rfl
  | case3 high low rest h ih => simp [Piece.units, ih]
  | case4 high low rest h ih => simp [Piece.units, ih]

lemma hexDigit_inj {d e : ℕ} (hd : d < 16) (he : e < 16) (h : hexDigit d = hexDigit e) : d = e := by
  have hall : ∀ d < 16, ∀ e < 16, hexDigit d = hexDigit e → d = e := by decide
  exact hall d hd e he h

lemma hex4_inj {c d : ℕ} (hc : c < 65536) (hd : d < 65536) (h : hex4 c = hex4 d) : c = d := by
  simp only [hex4, List.cons.injEq, and_true] at h
  obtain ⟨h1, h2, h3, h4⟩ := h
  have e1 := hexDigit_inj (by omega) (by omega) h1
  have e2 := hexDigit_inj (by omega) (by omega) h2
  have e3 := hexDigit_inj (by omega) (by omega) h3
  have e4 := hexDigit_inj (by omega) (by omega) h4
  omega

lemma mem_escapes {c letter : ℕ} (h : escapeLetter c = some letter) : (c, letter) ∈ escapes := by
  obtain ⟨e, he, rfl⟩ := Option.map_eq_some_iff.mp h
  have hc : e.1 = c := by simpa using List.find?_some he
  exact hc ▸ List.mem_of_find?_eq_some he

lemma escapeLetter_ne {c letter : ℕ} (h : escapeLetter c = some letter) : letter ≠ 117 := by
  have hall : ∀ e ∈ escapes, e.2 ≠ 117 := by decide
  exact hall _ (mem_escapes h)

lemma escapeLetter_inj {c d letter : ℕ} (hc : escapeLetter c = some letter)
    (hd : escapeLetter d = some letter) : c = d := by
  have hall : ∀ e ∈ escapes, ∀ f ∈ escapes, e.2 = f.2 → e.1 = f.1 := by decide
  exact hall _ (mem_escapes hc) _ (mem_escapes hd) rfl

/-- How a piece is written: as it is, behind a backslash, or by its number. -/
lemma text_unit (c : ℕ) :
    ((Piece.unit c).text = [c] ∧ c ≠ 34 ∧ c ≠ 92 ∧ isHigh c = false) ∨
      (∃ letter, (Piece.unit c).text = [92, letter] ∧ escapeLetter c = some letter) ∨
      (Piece.unit c).text = 92 :: 117 :: hex4 c ∧ c < 65536 := by
  simp only [Piece.text]
  cases he : escapeLetter c with
  | some letter => exact .inr (.inl ⟨letter, rfl, rfl⟩)
  | none =>
    simp only
    split_ifs with hcond
    · refine .inr (.inr ⟨rfl, ?_⟩)
      simp only [isHigh, isLow, decide_eq_true_eq] at hcond
      omega
    · refine .inl ⟨rfl, ?_, ?_, ?_⟩
      · rintro rfl
        cases he
      · rintro rfl
        cases he
      · simpa using fun h => hcond (.inr (.inl h))

lemma text_pair_ne {high low : ℕ} (h : isHigh high = true) {c : ℕ} :
    (Piece.pair high low).text ++ x ≠ (Piece.unit c).text ++ y := by
  have hne : high ≠ 92 := by
    rintro rfl
    cases h
  obtain ⟨ht, -, -, hc⟩ | ⟨letter, ht, -⟩ | ⟨ht, -⟩ := text_unit c <;>
    rw [ht, Piece.text] <;> intro heq <;> have hhead := (List.cons.inj heq).1
  · rw [hhead, hc] at h
    cases h
  · exact hne hhead
  · exact hne hhead

/-- **A piece is read back.** -/
lemma piece_inj {p q : Piece} (hp : p.Valid) (hq : q.Valid) (h : p.text ++ x = q.text ++ y) :
    p = q ∧ x = y := by
  cases p with
  | pair high low =>
    cases q with
    | pair high' low' =>
      simp only [Piece.text, List.cons_append, List.nil_append, List.cons.injEq] at h
      obtain ⟨rfl, rfl, rfl⟩ := h
      exact ⟨rfl, rfl⟩
    | unit d => exact absurd h (text_pair_ne hp.1)
  | unit c =>
    cases q with
    | pair high' low' => exact absurd h.symm (text_pair_ne hq.1)
    | unit d =>
      obtain ⟨hc, -, hc92, -⟩ | ⟨l, hc, hl⟩ | ⟨hc, hlt⟩ := text_unit c <;>
        obtain ⟨hd, -, hd92, -⟩ | ⟨l', hd, hl'⟩ | ⟨hd, hlt'⟩ := text_unit d <;>
        rw [hc, hd] at h
      · simpa using h
      · exact absurd (List.cons.inj h).1 hc92
      · exact absurd (List.cons.inj h).1 hc92
      · exact absurd (List.cons.inj h).1.symm hd92
      · simp only [List.cons_append, List.nil_append, List.cons.injEq, true_and] at h
        obtain ⟨rfl, rfl⟩ := h
        exact ⟨by rw [escapeLetter_inj hl hl'], rfl⟩
      · simp only [List.cons_append, List.nil_append, List.cons.injEq, true_and] at h
        exact absurd h.1 (escapeLetter_ne hl)
      · exact absurd (List.cons.inj h).1.symm hd92
      · simp only [List.cons_append, List.nil_append, List.cons.injEq, true_and] at h
        exact absurd h.1.symm (escapeLetter_ne hl')
      · simp only [List.cons_append, List.cons.injEq, true_and] at h
        obtain ⟨hhex, hxy⟩ := List.append_inj h rfl
        exact ⟨by rw [hex4_inj hlt hlt' hhex], hxy⟩

/-- No piece begins with the quotation mark that ends the string. -/
lemma text_piece_ne {p : Piece} (hp : p.Valid) : p.text ++ x ≠ 34 :: y := by
  cases p with
  | pair high low =>
    intro h
    have hhigh : high = 34 := (List.cons.inj h).1
    have hp1 := hp.1
    rw [hhigh] at hp1
    cases hp1
  | unit c =>
    obtain ⟨ht, hc, -⟩ | ⟨letter, ht, -⟩ | ⟨ht, -⟩ := text_unit c <;> rw [ht] <;> intro h
    · exact hc (List.cons.inj h).1
    · cases (List.cons.inj h).1
    · cases (List.cons.inj h).1

lemma pieces_inj {ps qs : List Piece} (hps : ∀ p ∈ ps, p.Valid) (hqs : ∀ q ∈ qs, q.Valid)
    (h : ps.flatMap Piece.text ++ 34 :: x = qs.flatMap Piece.text ++ 34 :: y) :
    ps = qs ∧ x = y := by
  induction ps generalizing qs with
  | nil =>
    cases qs with
    | nil => exact ⟨rfl, (List.cons.inj h).2⟩
    | cons q qs =>
      rw [List.flatMap_cons, List.append_assoc] at h
      exact absurd h.symm (text_piece_ne (hqs q List.mem_cons_self))
  | cons p ps ih =>
    obtain ⟨hp, hps'⟩ := List.forall_mem_cons.mp hps
    cases qs with
    | nil =>
      rw [List.flatMap_cons, List.append_assoc] at h
      exact absurd h (text_piece_ne hp)
    | cons q qs =>
      obtain ⟨hq, hqs'⟩ := List.forall_mem_cons.mp hqs
      rw [List.flatMap_cons, List.flatMap_cons, List.append_assoc, List.append_assoc] at h
      obtain ⟨rfl, hrest⟩ := piece_inj hp hq h
      obtain ⟨rfl, rfl⟩ := ih hps' hqs' hrest
      exact ⟨rfl, rfl⟩

/-- **A quoted string is read back.** -/
theorem quote_inj {s t : JsString} (h : quote s ++ x = quote t ++ y) : s = t ∧ x = y := by
  simp only [quote, List.cons_append, List.append_assoc, List.nil_append, List.cons.injEq,
    true_and] at h
  obtain ⟨hpieces, rfl⟩ := pieces_inj (pieces_valid s) (pieces_valid t) h
  exact ⟨by rw [← flatMap_pieces s, hpieces, flatMap_pieces], rfl⟩

/-! ### Values are read back -/

/-- What comes after a value: nothing, a comma or a closing bracket. -/
def Ends (x : JsString) : Prop := ∀ c ∈ x.head?, c = 44 ∨ c = 93 ∨ c = 125

lemma ends_nil : Ends [] := by simp [Ends]

lemma ends_cons {c : ℕ} (h : c = 44 ∨ c = 93 ∨ c = 125) : Ends (c :: x) := by
  intro d hd
  cases hd
  exact h

/-- Two lists that end where a property of their units does. -/
lemma append_inj_of_units {p : ℕ → Prop} {l l' : List ℕ} (hl : ∀ c ∈ l, p c)
    (hl' : ∀ c ∈ l', p c) (hx : ∀ c ∈ x.head?, ¬ p c) (hy : ∀ c ∈ y.head?, ¬ p c)
    (h : l ++ x = l' ++ y) : l = l' ∧ x = y := by
  induction l generalizing l' with
  | nil =>
    cases l' with
    | nil => exact ⟨rfl, h⟩
    | cons c l' =>
      rw [List.nil_append] at h
      subst h
      exact absurd (hl' c List.mem_cons_self) (hx c rfl)
  | cons c l ih =>
    cases l' with
    | nil =>
      rw [List.nil_append] at h
      subst h
      exact absurd (hl c List.mem_cons_self) (hy c rfl)
    | cons c' l' =>
      obtain ⟨rfl, hrest⟩ := List.cons.inj h
      obtain ⟨rfl, rfl⟩ := ih (fun d hd => hl d (List.mem_cons_of_mem _ hd))
        (fun d hd => hl' d (List.mem_cons_of_mem _ hd)) hrest
      exact ⟨rfl, rfl⟩

section Join

variable {α : Type} {code : α → JsString} {close : ℕ}

lemma ends_flatMap (hclose : close = 93 ∨ close = 125) (l : List α) (x : JsString) :
    Ends ((l.map code).flatMap (44 :: ·) ++ close :: x) := by
  cases l with
  | nil => exact ends_cons (.inr hclose)
  | cons a l => exact ends_cons (.inl rfl)

/-- The elements of a bracket are read back one after the other, if each of them is. -/
lemma flatMap_comma_inj {l l' : List α} (hclose : close = 93 ∨ close = 125)
    (hcode : ∀ a ∈ l, ∀ b x y, Ends x → Ends y → code a ++ x = code b ++ y → a = b ∧ x = y)
    (h : (l.map code).flatMap (44 :: ·) ++ close :: x =
      (l'.map code).flatMap (44 :: ·) ++ close :: y) :
    l = l' ∧ x = y := by
  have hcomma : close ≠ 44 := by omega
  induction l generalizing l' with
  | nil =>
    cases l' with
    | nil => exact ⟨rfl, (List.cons.inj h).2⟩
    | cons b l' => exact absurd (List.cons.inj h).1 hcomma
  | cons a l ih =>
    cases l' with
    | nil => exact absurd (List.cons.inj h).1.symm hcomma
    | cons b l' =>
      obtain ⟨ha, hl⟩ := List.forall_mem_cons.mp hcode
      simp only [List.map_cons, List.flatMap_cons, List.cons_append, List.append_assoc,
        List.cons.injEq, true_and] at h
      obtain ⟨rfl, hrest⟩ := ha b _ _ (ends_flatMap hclose _ _) (ends_flatMap hclose _ _) h
      obtain ⟨rfl, rfl⟩ := ih hl hrest
      exact ⟨rfl, rfl⟩

lemma join_inj {l l' : List α} (hclose : close = 93 ∨ close = 125)
    (hcode : ∀ a ∈ l, ∀ b x y, Ends x → Ends y → code a ++ x = code b ++ y → a = b ∧ x = y)
    (hopen : ∀ a x y, code a ++ x ≠ close :: y)
    (h : join (l.map code) ++ close :: x = join (l'.map code) ++ close :: y) : l = l' ∧ x = y := by
  cases l with
  | nil =>
    cases l' with
    | nil => exact ⟨rfl, (List.cons.inj h).2⟩
    | cons b l' =>
      simp only [List.map_cons, join, List.append_assoc] at h
      exact absurd h.symm (hopen _ _ _)
  | cons a l =>
    cases l' with
    | nil =>
      simp only [List.map_cons, join, List.append_assoc] at h
      exact absurd h (hopen _ _ _)
    | cons b l' =>
      obtain ⟨ha, hl⟩ := List.forall_mem_cons.mp hcode
      simp only [List.map_cons, join, List.append_assoc] at h
      obtain ⟨rfl, hrest⟩ := ha b _ _ (ends_flatMap hclose _ _) (ends_flatMap hclose _ _) h
      obtain ⟨rfl, rfl⟩ := flatMap_comma_inj hclose hl hrest
      exact ⟨rfl, rfl⟩

end Join

/-- What the first unit of a text tells: which constructor made the value. -/
inductive Kind
  | null | bool (b : Bool) | num | str | arr | obj
  deriving DecidableEq

def Json.kind : Json N → Kind
  | .null => .null
  | .bool b => .bool b
  | .num _ => .num
  | .str _ => .str
  | .arr _ => .arr
  | .obj _ => .obj

def openings : List (ℕ × Kind) :=
  [(110, .null), (116, .bool true), (102, .bool false), (34, .str), (91, .arr), (123, .obj)] ++
    (units "0123456789+-.e").map (·, .num)

lemma exists_opening (v : Json N) :
    ∃ c rest, text numbers v = c :: rest ∧ (c, v.kind) ∈ openings := by
  cases v with
  | null => exact ⟨110, units "ull", by simp [text, units], by simp [openings, Json.kind]⟩
  | bool b =>
    cases b with
    | false => exact ⟨102, units "alse", by simp [text, units], by simp [openings, Json.kind]⟩
    | true => exact ⟨116, units "rue", by simp [text, units], by simp [openings, Json.kind]⟩
  | num n =>
    obtain ⟨c, rest, hn⟩ := List.exists_cons_of_ne_nil (numbers.ne_nil n)
    have hc := numbers.units n c (by rw [hn]; exact List.mem_cons_self)
    exact ⟨c, rest, by rw [text, hn], List.mem_append_right _ (List.mem_map_of_mem hc)⟩
  | str s => exact ⟨34, _, by rw [text, quote], by simp [openings, Json.kind]⟩
  | arr items => exact ⟨91, _, by rw [text], by simp [openings, Json.kind]⟩
  | obj entries => exact ⟨123, _, by rw [text], by simp [openings, Json.kind]⟩

/-- **Texts that begin alike are of values of one kind.** -/
lemma kind_eq {a b : Json N} (h : text numbers a ++ x = text numbers b ++ y) : a.kind = b.kind := by
  obtain ⟨c, rest, ha, hca⟩ := exists_opening numbers a
  obtain ⟨d, rest', hb, hdb⟩ := exists_opening numbers b
  rw [ha, hb] at h
  obtain rfl := (List.cons.inj h).1
  have hall : ∀ e ∈ openings, ∀ f ∈ openings, e.1 = f.1 → e.2 = f.2 := by decide
  exact hall _ hca _ hdb rfl

lemma text_ne_close {close : ℕ} (hclose : close = 93 ∨ close = 125) (v : Json N) :
    text numbers v ++ x ≠ close :: y := by
  obtain ⟨c, rest, hv, hc⟩ := exists_opening numbers v
  rw [hv]
  intro h
  have hall : ∀ e ∈ openings, e.1 ≠ 93 ∧ e.1 ≠ 125 := by decide
  have hne := hall _ hc
  rw [(List.cons.inj h).1] at hne
  omega

/-- What comes after a value is of no number. -/
lemma not_number_of_ends (hx : Ends x) : ∀ c ∈ x.head?, ¬ c ∈ units "0123456789+-.e" := by
  intro c hc
  have hall : ∀ c ∈ units "0123456789+-.e", ¬ (c = 44 ∨ c = 93 ∨ c = 125) := by decide
  exact fun hmem => hall c hmem (hx c hc)

/-- **A text is read back**, with the entries in their order, also where more comes after it. -/
theorem text_inj (a : Json N) : ∀ b x y, Ends x → Ends y →
    text numbers a ++ x = text numbers b ++ y → a = b ∧ x = y := by
  induction a using Json.ind with
  | null =>
    intro b x y hx hy h
    have hkind := kind_eq numbers h
    cases b <;> cases hkind
    exact ⟨rfl, List.append_cancel_left h⟩
  | bool b =>
    intro b' x y hx hy h
    have hkind := kind_eq numbers h
    cases b' <;> cases hkind
    exact ⟨rfl, List.append_cancel_left h⟩
  | num n =>
    intro b x y hx hy h
    have hkind := kind_eq numbers h
    cases b <;> cases hkind
    rw [text, text] at h
    obtain ⟨hn, rfl⟩ := append_inj_of_units (numbers.units n) (numbers.units _)
      (not_number_of_ends hx) (not_number_of_ends hy) h
    exact ⟨by rw [numbers.injective hn], rfl⟩
  | str s =>
    intro b x y hx hy h
    have hkind := kind_eq numbers h
    cases b <;> cases hkind
    rw [text, text] at h
    obtain ⟨rfl, rfl⟩ := quote_inj h
    exact ⟨rfl, rfl⟩
  | arr items ih =>
    intro b x y hx hy h
    have hkind := kind_eq numbers h
    cases b <;> cases hkind
    simp only [text, List.cons_append, List.append_assoc, List.nil_append, List.cons.injEq,
      true_and] at h
    obtain ⟨rfl, rfl⟩ := join_inj (.inl rfl) ih (fun v _ _ => text_ne_close numbers (.inl rfl) v) h
    exact ⟨rfl, rfl⟩
  | obj entries ih =>
    intro b x y hx hy h
    have hkind := kind_eq numbers h
    cases b <;> cases hkind
    simp only [text, List.cons_append, List.append_assoc, List.nil_append, List.cons.injEq,
      true_and] at h
    have hentry : ∀ e ∈ entries, ∀ f x y, Ends x → Ends y →
        quote e.1 ++ 58 :: text numbers e.2 ++ x = quote f.1 ++ 58 :: text numbers f.2 ++ y →
        e = f ∧ x = y := by
      intro e he f x y hx hy h
      simp only [List.append_assoc, List.cons_append] at h
      obtain ⟨hkey, hvalue⟩ := quote_inj h
      obtain ⟨hitem, rfl⟩ := ih e he _ _ _ hx hy (List.cons.inj hvalue).2
      exact ⟨Prod.ext hkey hitem, rfl⟩
    have hquote : ∀ (e : JsString × Json N) (x y : JsString),
        quote e.1 ++ 58 :: text numbers e.2 ++ x ≠ 125 :: y := by
      intro e x y h
      cases (List.cons.inj h).1
    obtain ⟨rfl, rfl⟩ := join_inj (.inr rfl) hentry hquote h
    exact ⟨rfl, rfl⟩

end MouseKeeper.Server.CanonicalJson
