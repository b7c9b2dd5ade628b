import MouseKeeper.Contracts.Common
import MouseKeeper.FileEngine.FileIndex

/-!
Reports that cached files are stale: what the desktop queues, and which files the server marks.
-/

namespace MouseKeeper.Desktop.StaleReports

open Contracts (segments)

structure SmartCacheStalePayload where
  roomId : String
  sourceRelativePath : Option String
  reason : String
  deriving DecidableEq

/-! ### JSON -/

def hexDigit (n : ℕ) : Char := if n < 10 then Char.ofNat (48 + n) else Char.ofNat (87 + n)

def hexValue (c : Char) : ℕ := if c.toNat < 58 then c.toNat - 48 else c.toNat - 87

/-- A character in a JSON string as serde_json writes it. -/
def escape (c : Char) : List Char :=
  if c = '"' then ['\\', '"']
  else if c = '\\' then ['\\', '\\']
  else if c.toNat = 8 then ['\\', 'b']
  else if c.toNat = 9 then ['\\', 't']
  else if c.toNat = 10 then ['\\', 'n']
  else if c.toNat = 12 then ['\\', 'f']
  else if c.toNat = 13 then ['\\', 'r']
  else if c.toNat < 32 then ['\\', 'u', '0', '0', hexDigit (c.toNat / 16), hexDigit (c.toNat % 16)]
  else [c]

def quote (s : String) : List Char := '"' :: s.toList.flatMap escape ++ ['"']

/-- The character of an escape of two characters. -/
def unescape (c : Char) : Char :=
  match c with
  | 'b' => Char.ofNat 8
  | 't' => '\t'
  | 'n' => '\n'
  | 'f' => Char.ofNat 12
  | 'r' => '\r'
  | c => c

/-- The rest of a string behind its opening quote, and what follows on it. -/
def unquote : List Char → Option (List Char × List Char)
  | '"' :: rest => some ([], rest)
  | '\\' :: 'u' :: '0' :: '0' :: a :: b :: rest =>
    (unquote rest).map fun r => (Char.ofNat (16 * hexValue a + hexValue b) :: r.1, r.2)
  | '\\' :: c :: rest => (unquote rest).map fun r => (unescape c :: r.1, r.2)
  | c :: rest => (unquote rest).map fun r => (c :: r.1, r.2)
  | [] => none

/-- A string, and what follows on it. -/
def string : List Char → Option (String × List Char)
  | '"' :: rest => (unquote rest).map fun r => (String.ofList r.1, r.2)
  | _ => none

/-- What follows on the text. -/
def skip (text : String) (l : List Char) : Option (List Char) := text.toList.isPrefixOf? l

def nullable (s : Option String) : List Char := s.elim "null".toList quote

def nullableString (l : List Char) : Option (Option String × List Char) :=
  match skip "null" l with
  | some rest => some (none, rest)
  | none => (string l).map fun r => (some r.1, r.2)

def SmartCacheStalePayload.toString (p : SmartCacheStalePayload) : String :=
  String.ofList ("\x7b\"roomId\":".toList ++ quote p.roomId ++ ",\"sourceRelativePath\":".toList ++
    nullable p.sourceRelativePath ++ ",\"reason\":".toList ++ quote p.reason ++ "\x7d".toList)

/-- `decode`, for the texts that `toString` writes. -/
def decode (json : String) : Option SmartCacheStalePayload := do
  let l ← skip "\x7b\"roomId\":" json.toList
  let (roomId, l) ← string l
  let l ← skip ",\"sourceRelativePath\":" l
  let (sourceRelativePath, l) ← nullableString l
  let l ← skip ",\"reason\":" l
  let (reason, l) ← string l
  if l = ['\x7d'] then some ⟨roomId, sourceRelativePath, reason⟩ else none

/-! ### Reading undoes writing -/

lemma hexValue_hexDigit {n : ℕ} (h : n < 32) :
    16 * hexValue (hexDigit (n / 16)) + hexValue (hexDigit (n % 16)) = n := by
  revert n
  decide

lemma char_of_toNat {c : Char} {n : ℕ} (h : c.toNat = n) : c = Char.ofNat n := by
  rw [← h, Char.ofNat_toNat]

lemma unquote_escape (c : Char) (l : List Char) :
    unquote (escape c ++ l) = (unquote l).map fun r => (c :: r.1, r.2) := by
  unfold escape
  by_cases hq : c = '"'
  · rw [if_pos hq, hq]
    rfl
  rw [if_neg hq]
  by_cases hb : c = '\\'
  · rw [if_pos hb, hb]
    rfl
  rw [if_neg hb]
  by_cases h8 : c.toNat = 8
  · rw [if_pos h8, char_of_toNat h8]
    rfl
  rw [if_neg h8]
  by_cases h9 : c.toNat = 9
  · rw [if_pos h9, char_of_toNat h9]
    rfl
  rw [if_neg h9]
  by_cases h10 : c.toNat = 10
  · rw [if_pos h10, char_of_toNat h10]
    rfl
  rw [if_neg h10]
  by_cases h12 : c.toNat = 12
  · rw [if_pos h12, char_of_toNat h12]
    rfl
  rw [if_neg h12]
  by_cases h13 : c.toNat = 13
  · rw [if_pos h13, char_of_toNat h13]
    rfl
  rw [if_neg h13]
  by_cases h32 : c.toNat < 32
  · rw [if_pos h32]
    change (unquote l).map _ = _
    rw [hexValue_hexDigit h32, Char.ofNat_toNat]
  · rw [if_neg h32]
    simp [unquote, hb]

lemma unquote_quoted (s rest : List Char) :
    unquote (s.flatMap escape ++ '"' :: rest) = some (s, rest) := by
  induction s with
  | nil => rfl
  | cons c s ih => rw [List.flatMap_cons, List.append_assoc, unquote_escape, ih, Option.map_some]

lemma string_quote (s : String) (rest : List Char) : string (quote s ++ rest) = some (s, rest) := by
  have hq : quote s ++ rest = '"' :: (s.toList.flatMap escape ++ '"' :: rest) := by simp [quote]
  rw [hq, string, unquote_quoted, Option.map_some, String.ofList_toList]

@[simp]
lemma skip_append (text : String) (rest : List Char) :
    skip text (text.toList ++ rest) = some rest :=
  List.isPrefixOf?_eq_some_iff_append_eq.mpr rfl

lemma nullableString_nullable (s : Option String) (rest : List Char) :
    nullableString (nullable s ++ rest) = some (s, rest) := by
  cases s with
  | none => rfl
  | some s =>
    have hn : skip "null" (quote s ++ rest) = none := rfl
    rw [nullable, Option.elim_some, nullableString, hn]
    simp only [string_quote, Option.map_some]

lemma decode_toString (p : SmartCacheStalePayload) : decode p.toString = some p := by
  have hend : "\x7d".toList = ['\x7d'] := rfl
  unfold decode SmartCacheStalePayload.toString
  generalize "\x7b\"roomId\":" = a, ",\"sourceRelativePath\":" = b, ",\"reason\":" = c
  simp only [String.toList_ofList, List.append_assoc, Option.bind_eq_bind, skip_append,
    Option.bind_some, string_quote, nullableString_nullable, hend, if_true]

end MouseKeeper.Desktop.StaleReports
