import MouseKeeper.Server.JsonText
import MouseKeeper.StableSorts
import Mathlib.Data.List.Forall2
import Mathlib.Data.List.Nodup

/-!
The canonical text of a JSON value.

The entries of every object are sorted by their keys as `localeCompare` ranks them, which ties
keys that differ only in how they compose their letters. Keys that tie stay in the order they
were inserted in, so two objects that are equal have one text only if they agree on that order.
-/

namespace MouseKeeper.Server.CanonicalJson

open StableSorts

/-- What the runtime brings: the numbers with their texts, and the order of strings in the
locale. -/
structure Platform where
  Number : Type
  numbers : NumberText Number
  localeCompare : JsString → JsString → Ordering
  trans : Std.TransCmp localeCompare

attribute [instance] Platform.trans

variable {N : Type}

def keys (entries : List (JsString × Json N)) : List JsString := entries.map Prod.fst

/-- A value as the runtime can have it: no object has a key twice. -/
inductive Json.WellFormed : Json N → Prop
  | null : WellFormed .null
  | bool (b : Bool) : WellFormed (.bool b)
  | num (n : N) : WellFormed (.num n)
  | str (s : JsString) : WellFormed (.str s)
  | arr {items : List (Json N)} (item : ∀ v ∈ items, v.WellFormed) : WellFormed (.arr items)
  | obj {entries : List (JsString × Json N)} (nodup : (keys entries).Nodup)
      (item : ∀ e ∈ entries, e.2.WellFormed) : WellFormed (.obj entries)

abbrev Value (N : Type) := { v : Json N // v.WellFormed }

/-- Equal but for the order of keys, which is bound by `R` at each object. -/
inductive Alike (R : List JsString → List JsString → Prop) : Json N → Json N → Prop
  | null : Alike R .null .null
  | bool (b : Bool) : Alike R (.bool b) (.bool b)
  | num (n : N) : Alike R (.num n) (.num n)
  | str (s : JsString) : Alike R (.str s) (.str s)
  | arr {items items' : List (Json N)} (length : items.length = items'.length)
      (item : ∀ p ∈ items.zip items', Alike R p.1 p.2) : Alike R (.arr items) (.arr items')
  | obj {entries entries' : List (JsString × Json N)} (order : R (keys entries) (keys entries'))
      (item : ∀ k v v', (k, v) ∈ entries → (k, v') ∈ entries' → Alike R v v') :
      Alike R (.obj entries) (.obj entries')

/-- Equal up to the order of the keys of objects. -/
def Same (a b : Json N) : Prop := Alike List.Perm a b

variable (platform : Platform)

/-- The comparison of entries, by their keys. -/
def byKey (left right : JsString × Json N) : Ordering := platform.localeCompare left.1 right.1

def canonicalJson : Json platform.Number → JsString
  | .arr items => 91 :: (join (items.map fun item => canonicalJson item) ++ [93])
  | .obj entries =>
    123 :: (join ((sort (byKey platform) entries).attach.map fun ⟨entry, _⟩ =>
      quote entry.1 ++ 58 :: canonicalJson entry.2) ++ [125])
  | value => text platform.numbers value
termination_by v => sizeOf v
decreasing_by
  · have := List.sizeOf_lt_of_mem ‹_›
    simp only [Json.arr.sizeOf_spec]
    omega
  · have := sizeOf_entry_lt (mem_sort.mp ‹_›)
    simp only [Json.obj.sizeOf_spec]
    omega

/-- The keys that tie with any one key stand in the same order in both. -/
def TiesInOrder (ks ks' : List JsString) : Prop :=
  ks.Perm ks' ∧ ∀ k, ks.filter (tied platform.localeCompare k) =
    ks'.filter (tied platform.localeCompare k)

/-! ### Canonical values -/

/-- The value with the entries of every object sorted. -/
def sortKeys : Json platform.Number → Json platform.Number
  | .arr items => .arr (items.map fun item => sortKeys item)
  | .obj entries =>
    .obj ((sort (byKey platform) entries).attach.map fun ⟨entry, _⟩ =>
      (entry.1, sortKeys entry.2))
  | value => value
termination_by v => sizeOf v
decreasing_by
  · have := List.sizeOf_lt_of_mem ‹_›
    simp only [Json.arr.sizeOf_spec]
    omega
  · have := sizeOf_entry_lt (mem_sort.mp ‹_›)
    simp only [Json.obj.sizeOf_spec]
    omega

variable {platform}

lemma canonicalJson_obj (entries : List (JsString × Json platform.Number)) :
    canonicalJson platform (.obj entries) =
      123 :: (join ((sort (byKey platform) entries).map fun entry =>
        quote entry.1 ++ 58 :: canonicalJson platform entry.2) ++ [125]) := by
  rw [canonicalJson]
  exact congrArg (fun l => 123 :: (join l ++ [125])) (List.attach_map_val (f := fun entry :
    JsString × Json platform.Number => quote entry.1 ++ 58 :: canonicalJson platform entry.2))

lemma sortKeys_obj (entries : List (JsString × Json platform.Number)) :
    sortKeys platform (.obj entries) =
      .obj ((sort (byKey platform) entries).map fun e => (e.1, sortKeys platform e.2)) := by
  rw [sortKeys]
  exact congrArg Json.obj (List.attach_map_val (f := fun entry :
    JsString × Json platform.Number => (entry.1, sortKeys platform entry.2)))

/-- **The canonical text is that of the sorted value.** -/
theorem canonicalJson_eq (v : Json platform.Number) :
    canonicalJson platform v = text platform.numbers (sortKeys platform v) := by
  induction v using Json.ind with
  | null => rw [canonicalJson, sortKeys] <;> simp
  | bool b => rw [canonicalJson, sortKeys] <;> simp
  | num n => rw [canonicalJson, sortKeys] <;> simp
  | str s => rw [canonicalJson, sortKeys] <;> simp
  | arr items ih =>
    rw [canonicalJson, sortKeys, text, List.map_map]
    congr 3
    exact List.map_congr_left ih
  | obj entries ih =>
    rw [canonicalJson_obj, sortKeys_obj, text, List.map_map]
    congr 3
    refine List.map_congr_left fun e he => ?_
    rw [Function.comp_apply, ih e (mem_sort.mp he)]

theorem canonicalJson_inj {a b : Json platform.Number} :
    canonicalJson platform a = canonicalJson platform b ↔
      sortKeys platform a = sortKeys platform b := by
  rw [canonicalJson_eq, canonicalJson_eq]
  refine ⟨fun h => ?_, fun h => by rw [h]⟩
  exact (text_inj platform.numbers _ _ [] [] ends_nil ends_nil (by rw [h])).1

/-! ### Equality of canonical texts -/

lemma tiesInOrder_iff {ks ks' : List JsString} :
    TiesInOrder platform ks ks' ↔
      sort platform.localeCompare ks = sort platform.localeCompare ks' := by
  refine ⟨fun h => sort_eq_iff.mpr h.2, fun h => ⟨?_, sort_eq_iff.mp h⟩⟩
  calc ks.Perm (sort platform.localeCompare ks) := perm_sort.symm
    _ = sort platform.localeCompare ks' := h
    _ |>.Perm ks' := perm_sort

lemma keys_sort (entries : List (JsString × Json platform.Number)) :
    keys (sort (byKey platform) entries) = sort platform.localeCompare (keys entries) :=
  map_sort fun _ _ => rfl

/-- Lists of entries with the same keys and the same values are the same. -/
lemma eq_of_keys {α : Type} {l l' : List (JsString × α)} (hkeys : l.map Prod.fst = l'.map Prod.fst)
    (hvalues : ∀ k v v', (k, v) ∈ l → (k, v') ∈ l' → v = v') : l = l' := by
  induction l generalizing l' with
  | nil => exact (List.map_eq_nil_iff.mp hkeys.symm).symm
  | cons e l ih =>
    cases l' with
    | nil => cases hkeys
    | cons e' l' =>
      obtain ⟨hkey, hrest⟩ := List.cons.inj hkeys
      obtain ⟨k, v⟩ := e
      obtain ⟨k', v'⟩ := e'
      obtain rfl : k = k' := hkey
      obtain rfl := hvalues k v v' List.mem_cons_self List.mem_cons_self
      rw [ih hrest fun k v v' h h' =>
        hvalues k v v' (List.mem_cons_of_mem _ h) (List.mem_cons_of_mem _ h')]

/-- **Two objects are sorted into one exactly if their keys are and their values agree.** -/
lemma sorted_entries_eq_iff {entries entries' : List (JsString × Json platform.Number)}
    (hnodup : (keys entries').Nodup) {α : Type} (f : Json platform.Number → α) :
    ((sort (byKey platform) entries).map fun e => (e.1, f e.2)) =
        ((sort (byKey platform) entries').map fun e => (e.1, f e.2)) ↔
      TiesInOrder platform (keys entries) (keys entries') ∧
        ∀ k v v', (k, v) ∈ entries → (k, v') ∈ entries' → f v = f v' := by
  have hfst : ∀ l : List (JsString × Json platform.Number),
      ((sort (byKey platform) l).map fun e => (e.1, f e.2)).map Prod.fst =
        sort platform.localeCompare (keys l) := fun l => by
    rw [List.map_map, ← keys_sort]
    rfl
  rw [tiesInOrder_iff]
  constructor
  · intro h
    refine ⟨by rw [← hfst, h, hfst], fun k v v' hv hv' => ?_⟩
    have hmem : (k, f v) ∈ (sort (byKey platform) entries').map fun e => (e.1, f e.2) :=
      h ▸ List.mem_map_of_mem (mem_sort.mpr hv)
    obtain ⟨e, he, heq⟩ := List.mem_map.mp hmem
    obtain ⟨rfl, hf⟩ := Prod.mk.inj heq
    have hsame : e = (e.1, v') := List.inj_on_of_nodup_map hnodup (mem_sort.mp he) hv' rfl
    rw [← hf, hsame]
  · rintro ⟨hkeys, hvalues⟩
    refine eq_of_keys (by rw [hfst, hfst, hkeys]) fun k w w' hw hw' => ?_
    obtain ⟨e, he, heq⟩ := List.mem_map.mp hw
    obtain ⟨e', he', heq'⟩ := List.mem_map.mp hw'
    obtain ⟨rfl, rfl⟩ := Prod.mk.inj heq
    obtain ⟨hkey, rfl⟩ := Prod.mk.inj heq'
    exact hvalues e.1 e.2 e'.2 (mem_sort.mp he) (hkey ▸ mem_sort.mp he')

lemma map_eq_iff_zip {α β : Type} {f : α → β} {l l' : List α} :
    l.map f = l'.map f ↔ l.length = l'.length ∧ ∀ p ∈ l.zip l', f p.1 = f p.2 := by
  rw [← List.forall₂_eq_eq_eq, List.forall₂_map_left_iff, List.forall₂_map_right_iff,
    List.forall₂_iff_zip]
  exact and_congr_right fun _ => ⟨fun h p hp => h hp, fun h a b hp => h (a, b) hp⟩

lemma kind_sortKeys (v : Json platform.Number) : (sortKeys platform v).kind = v.kind := by
  cases v <;> rw [sortKeys] <;> simp [Json.kind]

lemma kind_eq_of_sortKeys {a b : Json platform.Number}
    (h : sortKeys platform a = sortKeys platform b) : a.kind = b.kind := by
  rw [← kind_sortKeys a, h, kind_sortKeys]

/-- **Sorted values are equal exactly if keys that tie stand in the same order** at every object. -/
theorem sortKeys_eq_iff (a : Json platform.Number) : ∀ b, a.WellFormed → b.WellFormed →
    (sortKeys platform a = sortKeys platform b ↔ Alike (TiesInOrder platform) a b) := by
  induction a using Json.ind with
  | null =>
    intro b ha hb
    constructor
    · intro h
      have hkind := kind_eq_of_sortKeys h
      cases b <;> cases hkind
      exact .null
    · rintro ⟨⟩
      rfl
  | bool b =>
    intro b' ha hb
    constructor
    · intro h
      have hkind := kind_eq_of_sortKeys h
      cases b' <;> cases hkind
      exact .bool b
    · rintro ⟨⟩
      rfl
  | num n =>
    intro b ha hb
    constructor
    · intro h
      have hkind := kind_eq_of_sortKeys h
      cases b <;> cases hkind
      simp only [sortKeys] at h
      exact h ▸ .num n
    · rintro ⟨⟩
      rfl
  | str s =>
    intro b ha hb
    constructor
    · intro h
      have hkind := kind_eq_of_sortKeys h
      cases b <;> cases hkind
      simp only [sortKeys] at h
      exact h ▸ .str s
    · rintro ⟨⟩
      rfl
  | arr items ih =>
    intro b ha hb
    cases ha with | arr ha =>
    have hitem : ∀ items' : List (Json platform.Number), (∀ v ∈ items', v.WellFormed) →
        ∀ p ∈ items.zip items', (sortKeys platform p.1 = sortKeys platform p.2 ↔
          Alike (TiesInOrder platform) p.1 p.2) := fun items' hb p hp =>
      have hmem := List.of_mem_zip hp
      ih p.1 hmem.1 p.2 (ha _ hmem.1) (hb _ hmem.2)
    constructor
    · intro h
      have hkind := kind_eq_of_sortKeys h
      cases b <;> cases hkind
      cases hb with | arr hb =>
      rw [sortKeys, sortKeys, Json.arr.injEq, map_eq_iff_zip] at h
      exact .arr h.1 fun p hp => (hitem _ hb p hp).mp (h.2 p hp)
    · intro h
      cases h with | arr hlength halike =>
      cases hb with | arr hb =>
      rw [sortKeys, sortKeys, Json.arr.injEq, map_eq_iff_zip]
      exact ⟨hlength, fun p hp => (hitem _ hb p hp).mpr (halike p hp)⟩
  | obj entries ih =>
    intro b ha hb
    cases ha with | obj hnodup ha =>
    have hitem : ∀ entries' : List (JsString × Json platform.Number),
        (∀ e ∈ entries', e.2.WellFormed) → ∀ k v v', (k, v) ∈ entries → (k, v') ∈ entries' →
        (sortKeys platform v = sortKeys platform v' ↔ Alike (TiesInOrder platform) v v') :=
      fun entries' hb k v v' hv hv' => ih (k, v) hv v' (ha _ hv) (hb _ hv')
    constructor
    · intro h
      have hkind := kind_eq_of_sortKeys h
      cases b <;> cases hkind
      cases hb with | obj hnodup' hb =>
      rw [sortKeys_obj, sortKeys_obj, Json.obj.injEq, sorted_entries_eq_iff hnodup'] at h
      exact .obj h.1 fun k v v' hv hv' => (hitem _ hb k v v' hv hv').mp (h.2 k v v' hv hv')
    · intro h
      cases h with | obj horder halike =>
      cases hb with | obj hnodup' hb =>
      rw [sortKeys_obj, sortKeys_obj, Json.obj.injEq, sorted_entries_eq_iff hnodup']
      exact ⟨horder, fun k v v' hv hv' => (hitem _ hb k v v' hv hv').mpr (halike k v v' hv hv')⟩

/-- **Two values have one canonical text exactly if they are equal up to the order of keys and
the keys that tie stand in the same order.** -/
theorem canonicalJson_eq_iff {a b : Json platform.Number} (ha : a.WellFormed) (hb : b.WellFormed) :
    canonicalJson platform a = canonicalJson platform b ↔ Alike (TiesInOrder platform) a b :=
  canonicalJson_inj.trans (sortKeys_eq_iff a b ha hb)

lemma Alike.mono {R S : List JsString → List JsString → Prop} (hRS : ∀ ks ks', R ks ks' → S ks ks')
    {a b : Json N} (h : Alike R a b) : Alike S a b := by
  induction h with
  | null => exact .null
  | bool b => exact .bool b
  | num n => exact .num n
  | str s => exact .str s
  | arr hlength _ ih => exact .arr hlength ih
  | obj horder _ ih => exact .obj (hRS _ _ horder) ih

/-- Values with one canonical text are equal up to the order of keys. -/
theorem same_of_canonicalJson_eq (a b : Value platform.Number)
    (h : canonicalJson platform a.1 = canonicalJson platform b.1) : Same a.1 b.1 :=
  ((canonicalJson_eq_iff a.2 b.2).mp h).mono fun _ _ h => h.1

variable (platform) in
/-- **Canonical texts tell values apart up to the order of keys** exactly where values that are
equal so have the keys that tie in the same order. -/
theorem canonicalJson_eq_iff_same_iff (a b : Value platform.Number) :
    (canonicalJson platform a.1 = canonicalJson platform b.1 ↔ Same a.1 b.1) ↔
      (Same a.1 b.1 → Alike (TiesInOrder platform) a.1 b.1) := by
  rw [← canonicalJson_eq_iff a.2 b.2]
  exact ⟨fun h => h.mpr, fun h => ⟨same_of_canonicalJson_eq a b, h⟩⟩

/-! ### Letters with an accent -/

/-- An e with an acute is compared as the letter and its accent. -/
def decompose (s : JsString) : JsString :=
  s.flatMap fun c => if c = 0xE9 then [0x65, 0x301] else [c]

def decimals : NumberText ℕ where
  text n := units n.repr
  injective n m h := by
    have hdigits := (List.map_inj_right fun _ _ => Char.toNat_inj.mp).mp h
    rw [Nat.toList_repr, Nat.toList_repr] at hdigits
    rw [← Nat.ofDigitChars_ten_toDigits (n := n), hdigits, Nat.ofDigitChars_ten_toDigits]
  ne_nil n h := by
    rw [units, List.map_eq_nil_iff, Nat.toList_repr] at h
    exact Nat.toDigits_ne_nil h
  units n c hc := by
    obtain ⟨d, hd, rfl⟩ := List.mem_map.mp hc
    rw [Nat.toList_repr] at hd
    have hdigit := Nat.isDigit_of_mem_toDigits (by decide) (by decide) hd
    have hall : ∀ k < 58, 48 ≤ k → k ∈ units "0123456789+-.e" := by decide
    rw [Char.isDigit_iff_toNat] at hdigit
    exact hall _ (Nat.lt_succ_of_le hdigit.2) hdigit.1

def accents : Platform where
  Number := ℕ
  numbers := decimals
  localeCompare := compareOn decompose
  trans := inferInstance

/-- The letter in one unit, before the letter in two. -/
def composedFirst : Value ℕ :=
  ⟨.obj [([0xE9], .num 1), ([0x65, 0x301], .num 2)],
    .obj (by decide) (List.forall_mem_cons.mpr ⟨.num 1, List.forall_mem_singleton.mpr (.num 2)⟩)⟩

def decomposedFirst : Value ℕ :=
  ⟨.obj [([0x65, 0x301], .num 2), ([0xE9], .num 1)],
    .obj (by decide) (List.forall_mem_cons.mpr ⟨.num 2, List.forall_mem_singleton.mpr (.num 1)⟩)⟩

/-- **Two objects that are equal up to the order of keys have different canonical texts.** -/
theorem canonicalJson_keeps_insertion_order :
    Same composedFirst.1 decomposedFirst.1 ∧
      canonicalJson accents composedFirst.1 ≠ canonicalJson accents decomposedFirst.1 := by
  constructor
  · refine .obj (List.Perm.swap _ _ _) fun k v v' hv hv' => ?_
    simp only [List.mem_cons, Prod.mk.injEq, List.not_mem_nil, or_false] at hv hv'
    obtain ⟨rfl, rfl⟩ | ⟨rfl, rfl⟩ := hv
    · obtain ⟨hk, -⟩ | ⟨-, rfl⟩ := hv'
      · cases hk
      · exact .num 1
    · obtain ⟨-, rfl⟩ | ⟨hk, -⟩ := hv'
      · exact .num 2
      · cases hk
  · intro h
    have halike := (canonicalJson_eq_iff composedFirst.2 decomposedFirst.2).mp h
    cases halike with | obj horder _ =>
    exact absurd (horder.2 [0xE9]) (by decide +kernel)

end MouseKeeper.Server.CanonicalJson
