import MouseKeeper.Mobile.FolderChanges

/-!
What an update does to the view of a folder.

The view is found to be one of a few, for each kind of update, by whether the update concerns the
folder and what is shown. From this it follows that the second time changes nothing.
-/

namespace MouseKeeper.Mobile.DirectoryView

open FileDirectoryState

/-- Entries of one folder, none of them twice. -/
structure Tidy (dir : Path) (l : List Entry) : Prop where
  named : ∀ x ∈ l, ∃ name, x.IsAt dir name
  distinct : (l.map Entry.path).Nodup

def FileDirectoryState.paths (s : FileDirectoryState) : List (Option Path) :=
  s.entries.map Entry.path

/-! ### Where entries are found -/

variable {platform : Platform} {t l : List Entry} {s : FileDirectoryState} {u : FileDirectoryUpdate}
  {x e : Entry} {dir p d source target : Path} {name : List Char} {cur text : String}

lemma entryRelativePath_iff :
    _entryRelativePath x = some (normalizeFileRelativePath text) ↔ x.path = some (pathOf text) := by
  rw [entryRelativePath_eq, Option.map_eq_some_iff]
  constructor
  · rintro ⟨q, hq, hjoined⟩
    rw [hq, (joined_inj (valid_path hq) (valid_pathOf text)).mp hjoined]
  · exact fun h => ⟨_, h, rfl⟩

lemma entryIndex_eq (text : String) (l : List Entry) :
    _entryIndex text l = l.findIdx? fun x => x.path = some (pathOf text) := by
  rw [_entryIndex]
  congr 1
  funext x
  exact decide_eq_decide.mpr entryRelativePath_iff

lemma entryIndex_of_not_mem (h : some (pathOf text) ∉ l.map Entry.path) :
    _entryIndex text l = none := by
  rw [entryIndex_eq, Listings.findIdx_eq_none_iff]
  exact fun x hx hpath => h (hpath ▸ List.mem_map_of_mem hx)

/-- Where an entry is found, and what is made of the list there. -/
lemma entryIndex_of_mem (hn : (l.map Entry.path).Nodup) (hx : x ∈ l)
    (hpath : x.path = some (pathOf text)) :
    ∃ i, _entryIndex text l = some i ∧ l[i]? = some x ∧ l.eraseIdx i = without (pathOf text) l ∧
      ∀ e, e.path = x.path → l.set i e = replace e l := by
  cases h : l.findIdx? fun x => x.path = some (pathOf text) with
  | none => exact absurd hpath (Listings.findIdx_eq_none_iff.mp h x hx)
  | some i =>
    obtain ⟨y, hy, hmem, hypath⟩ := Listings.exists_of_findIdx h
    cases Listings.eq_of_key hn hx hmem (hpath.trans hypath.symm)
    refine ⟨i, (entryIndex_eq text l).trans h, hy, Listings.eraseIdx_eq_filter hn h, fun e he => ?_⟩
    rw [Listings.set_eq_map hn h, replace, he, hpath]

lemma normalize_parent {field : Option String} (h : Names field d) (htext : pathOf text = d) :
    normalizeFileRelativePath ((field.or (some text)).getD "") = normalizeFileRelativePath cur ↔
      d = pathOf cur := by
  rw [normalize_eq_iff]
  cases field with
  | none => rw [Option.none_or, Option.getD_some, htext]
  | some given => rw [Option.some_or, Option.getD_some, h given rfl]

/-! ### What an update does -/

lemma replaceAt_eq {i : ℕ} (h : s.entries[i]? = some x)
    (hset : s.entries.set i e = replace e s.entries) : s._replaceAt platform i e =
      if _mapShallowEquals platform x e = true then s
      else s._withSortedEntries platform (replace e s.entries) := by
  rw [_replaceAt, h, hset]

section Entry

variable (he : e.IsAt d name)
include he

lemma entryRelativePath_isAt : _entryRelativePath e = some (Path.joined (d ++ [name])) := by
  rw [entryRelativePath_eq, he.1]
  rfl

lemma pathOf_isAt : pathOf (Path.joined (d ++ [name])) = d ++ [name] :=
  pathOf_joined (valid_path he.1)

/-- The folder that an entry is taken to be in. -/
lemma parent_iff {field : Option String} (hnames : Names field d) :
    normalizeFileRelativePath ((field.or
      (some (parentRelativeDirectoryOf (Path.joined (d ++ [name]))))).getD "") =
        normalizeFileRelativePath cur ↔ d = pathOf cur := by
  refine normalize_parent hnames ?_
  rw [pathOf_parent, pathOf_isAt he, List.dropLast_concat]

lemma names_isAt {field : Option String} (h : ∀ p ∈ e.path, Names field p.dropLast) :
    Names field d := by
  have hnames := h _ he.1
  rwa [List.dropLast_concat] at hnames

end Entry

section Added

variable (hu : Describes u (.added e)) (he : e.IsAt d name)
include hu he

lemma applyUpdate_added : s.applyUpdate platform cur u =
    s._addOrMarkStale platform (normalizeFileRelativePath cur) (u.parentRelativePath.or
      (some (parentRelativeDirectoryOf (Path.joined (d ++ [name]))))) (some e) := by
  obtain ⟨hkind, hentry, -⟩ := hu
  simp only [applyUpdate, hkind, hentry, Option.bind_some, entryRelativePath_isAt he,
    Option.map_some]

lemma added_elsewhere (h : d ≠ pathOf cur) : s.applyUpdate platform cur u = s := by
  have hparent := mt (parent_iff he (names_isAt he hu.2.2)).mp h
  rw [applyUpdate_added hu he, _addOrMarkStale]
  simp only [hparent, ne_eq, not_false_eq_true, if_true]

lemma added_shown (h : d = pathOf cur) (hn : (s.entries.map Entry.path).Nodup)
    (hx : x ∈ s.entries) (hpath : x.path = e.path) : s.applyUpdate platform cur u =
      if _mapShallowEquals platform x e = true then s
      else s._withSortedEntries platform (replace e s.entries) := by
  have hparent := (parent_iff he (names_isAt he hu.2.2)).mpr h
  obtain ⟨i, hi, hget, -, hset⟩ := entryIndex_of_mem hn hx
    (hpath.trans (he.1.trans (congrArg some (pathOf_isAt he).symm)))
  rw [applyUpdate_added hu he, _addOrMarkStale]
  simp only [hparent, ne_eq, not_true, if_false, entryRelativePath_isAt he, hi]
  exact replaceAt_eq hget (hset e hpath.symm)

lemma added_new (h : d = pathOf cur) (hnew : e.path ∉ s.paths) : s.applyUpdate platform cur u =
    if s.nextCursor.isSome = true then s.markStale
    else s._withSortedEntries platform (s.entries ++ [e]) := by
  have hparent := (parent_iff he (names_isAt he hu.2.2)).mpr h
  have hnone : _entryIndex (Path.joined (d ++ [name])) s.entries = none := by
    refine entryIndex_of_not_mem ?_
    rw [pathOf_isAt he, ← he.1]
    exact hnew
  rw [applyUpdate_added hu he, _addOrMarkStale]
  simp only [hparent, ne_eq, not_true, if_false, entryRelativePath_isAt he, hnone]

end Added

section Updated

variable (hu : Describes u (.updated e)) (he : e.IsAt d name)
include hu he

lemma applyUpdate_updated : s.applyUpdate platform cur u =
    s._replaceIfVisible platform (normalizeFileRelativePath cur) (u.parentRelativePath.or
      (some (parentRelativeDirectoryOf (Path.joined (d ++ [name]))))) (some e) := by
  obtain ⟨hkind, hentry, -⟩ := hu
  simp only [applyUpdate, hkind, hentry, Option.bind_some, entryRelativePath_isAt he,
    Option.map_some]

lemma updated_elsewhere (h : d ≠ pathOf cur) : s.applyUpdate platform cur u = s := by
  have hparent := mt (parent_iff he (names_isAt he hu.2.2)).mp h
  rw [applyUpdate_updated hu he, _replaceIfVisible]
  simp only [hparent, ne_eq, not_false_eq_true, if_true]

lemma updated_shown (h : d = pathOf cur) (hn : (s.entries.map Entry.path).Nodup)
    (hx : x ∈ s.entries) (hpath : x.path = e.path) : s.applyUpdate platform cur u =
      if _mapShallowEquals platform x e = true then s
      else s._withSortedEntries platform (replace e s.entries) := by
  have hparent := (parent_iff he (names_isAt he hu.2.2)).mpr h
  obtain ⟨i, hi, hget, -, hset⟩ := entryIndex_of_mem hn hx
    (hpath.trans (he.1.trans (congrArg some (pathOf_isAt he).symm)))
  rw [applyUpdate_updated hu he, _replaceIfVisible]
  simp only [hparent, ne_eq, not_true, if_false, entryRelativePath_isAt he, hi]
  exact replaceAt_eq hget (hset e hpath.symm)

lemma updated_absent (h : e.path ∉ s.paths) : s.applyUpdate platform cur u = s := by
  have hnone : _entryIndex (Path.joined (d ++ [name])) s.entries = none := by
    refine entryIndex_of_not_mem ?_
    rw [pathOf_isAt he, ← he.1]
    exact h
  rw [applyUpdate_updated hu he, _replaceIfVisible]
  simp only [entryRelativePath_isAt he, hnone, ite_self]

end Updated

section Removed

variable (hu : Describes u (.removed p))
include hu

/-- The path at which an entry is looked for. -/
lemma exists_removed : ∃ text, u.sourcePath.or (u.entry.bind _entryRelativePath) = some text ∧
    pathOf text = p := by
  obtain ⟨-, -, hprevious, hrelative, hentry, hsome⟩ := hu
  unfold FileDirectoryUpdate.sourcePath at hsome ⊢
  cases hp : u.previousRelativePath with
  | some text => exact ⟨text, rfl, hprevious text hp⟩
  | none =>
    cases hr : u.relativePath with
    | some text => exact ⟨text, rfl, hrelative text hr⟩
    | none =>
      rw [hp, hr] at hsome
      obtain ⟨entry, he⟩ := Option.isSome_iff_exists.mp (hsome.resolve_left (by simp))
      have hpath := hentry entry he
      refine ⟨p.joined, ?_, pathOf_joined (valid_path hpath)⟩
      rw [he, Option.bind_some, entryRelativePath_eq, hpath]
      rfl

lemma removed_eq : ∃ text, pathOf text = p ∧ s.applyUpdate platform cur u =
    s._removeIfVisible (normalizeFileRelativePath cur)
      (u.parentRelativePath.or (u.sourcePath.map parentRelativeDirectoryOf)) (some text) := by
  obtain ⟨text, htext, hpath⟩ := exists_removed hu
  refine ⟨text, hpath, ?_⟩
  simp only [applyUpdate, hu.1, htext]

lemma removed_absent (h : some p ∉ s.paths) : s.applyUpdate platform cur u = s := by
  obtain ⟨text, hpath, heq⟩ := removed_eq hu
  rw [heq, _removeIfVisible]
  simp only [entryIndex_of_not_mem (hpath ▸ h : some (pathOf text) ∉ s.entries.map Entry.path),
    ite_self]

/-- An entry that is named by itself only is looked for at the root. -/
lemma removed_unnamed (hparent : u.parentRelativePath = none) (hsource : u.sourcePath = none)
    (hcur : pathOf cur ≠ []) : s.applyUpdate platform cur u = s := by
  obtain ⟨text, -, heq⟩ := removed_eq hu
  have hroot : normalizeFileRelativePath "" ≠ normalizeFileRelativePath cur := fun h =>
    hcur ((normalize_eq_iff.mp h).symm.trans pathOf_empty)
  rw [heq, hparent, hsource, Option.none_or, Option.map_none, _removeIfVisible]
  simp only [Option.getD_none, hroot, ne_eq, not_false_eq_true, if_true]

lemma removed_shown (hnamed : u.parentRelativePath = none → u.sourcePath = none → pathOf cur = [])
    (hp : p = pathOf cur ++ [name]) (hn : (s.entries.map Entry.path).Nodup)
    (h : some p ∈ s.paths) : s.applyUpdate platform cur u =
      { s with
        entries := without p s.entries
        isStale := s.isStale || s.nextCursor.isSome } := by
  obtain ⟨text, hpath, heq⟩ := removed_eq hu
  obtain ⟨x, hx, hxpath⟩ := List.mem_map.mp h
  obtain ⟨i, hi, -, herase, -⟩ := entryIndex_of_mem hn hx (hxpath.trans (congrArg some hpath.symm))
  have hparent : normalizeFileRelativePath ((u.parentRelativePath.or
      (u.sourcePath.map parentRelativeDirectoryOf)).getD "") = normalizeFileRelativePath cur := by
    obtain ⟨-, hparent, hprevious, hrelative, -⟩ := hu
    refine normalize_eq_iff.mpr ?_
    have hdrop : p.dropLast = pathOf cur := by rw [hp, List.dropLast_concat]
    cases hgiven : u.parentRelativePath with
    | some given => rw [Option.some_or, Option.getD_some, hparent given hgiven, hdrop]
    | none =>
      cases hsource : u.sourcePath with
      | none =>
        rw [Option.none_or, Option.map_none, Option.getD_none, pathOf_empty, hnamed hgiven hsource]
      | some source =>
        have hpathSource : pathOf source = p := by
          rcases Option.or_eq_some_iff.mp hsource with h | ⟨-, h⟩
          · exact hprevious source h
          · exact hrelative source h
        rw [Option.none_or, Option.map_some, Option.getD_some, pathOf_parent, hpathSource, hdrop]
  rw [heq, _removeIfVisible]
  simp only [hparent, ne_eq, not_true, if_false, hi, herase, hpath]

end Removed

section Moved

variable (platform) in
/-- What is made of the entries that are left, where an entry arrives. -/
def FileDirectoryState.arrived (s : FileDirectoryState) (next : List Entry) (changed : Bool)
    (e : Entry) : FileDirectoryState :=
  match next.find? (·.path = e.path) with
  | some x =>
    if _mapShallowEquals platform x e then s.moved platform next changed
    else s.moved platform (replace e next) true
  | none =>
    if s.nextCursor.isNone then s.moved platform (next ++ [e]) true
    else { s with entries := next, isStale := true }

lemma takeOut_eq (hs : Tidy dir s.entries) (hpath : pathOf text = source) :
    s.takeOut (some text) = (without source s.entries, decide (some source ∈ s.paths)) := by
  rw [takeOut, Option.bind_some]
  by_cases hshown : some source ∈ s.paths
  · obtain ⟨x, hx, hxpath⟩ := List.mem_map.mp hshown
    obtain ⟨i, hi, -, herase, -⟩ := entryIndex_of_mem hs.distinct hx
      (hxpath.trans (congrArg some hpath.symm))
    rw [hi, decide_eq_true hshown, ← hpath, ← herase]
  · have hnone := entryIndex_of_not_mem (hpath ▸ hshown : some (pathOf text) ∉ s.entries.map _)
    have hsame : without source s.entries = s.entries :=
      without_of_not_mem fun x hx h => hshown (h ▸ List.mem_map_of_mem hx)
    rw [hnone, decide_eq_false hshown, hsame]

lemma putIn_eq (he : e.IsAt d name) {next : List Entry} {changed : Bool}
    (hn : (next.map Entry.path).Nodup) (hsame : changed = false → next = s.entries) :
    s.putIn platform next changed e = s.arrived platform next changed e := by
  have hpath := he.1
  rw [← pathOf_isAt he] at hpath
  rw [putIn, entryRelativePath_isAt he, arrived]
  cases hfind : next.find? (·.path = e.path) with
  | some x =>
    have hx : x.path = e.path := by simpa using List.find?_some hfind
    obtain ⟨i, hi, hget, -, hset⟩ := entryIndex_of_mem hn (List.mem_of_find?_eq_some hfind)
      (hx.trans hpath)
    simp only [hi, hget, hset e hx.symm]
  | none =>
    have hnone : _entryIndex (Path.joined (d ++ [name])) next = none := by
      refine entryIndex_of_not_mem fun hmem => ?_
      obtain ⟨x, hx, hxpath⟩ := List.mem_map.mp hmem
      exact absurd (hxpath.trans hpath.symm) (by simpa using List.find?_eq_none.mp hfind x hx)
    simp only [hnone]
    cases changed with
    | true => rfl
    | false =>
      rw [hsame rfl]
      rfl

variable (hu : Describes u (.moved source target e)) (he : e.IsAt d name)
include hu he

lemma applyUpdate_moved : ∃ text, pathOf text = source ∧ s.applyUpdate platform cur u =
    s._moveIfRelevant platform (normalizeFileRelativePath cur)
      (some (parentRelativeDirectoryOf text)) (some text) (u.parentRelativePath.or
        (some (parentRelativeDirectoryOf (Path.joined (d ++ [name]))))) (some e) := by
  obtain ⟨hkind, hentry, -, hsource⟩ := hu
  obtain ⟨text, htext, hpath⟩ := Option.map_eq_some_iff.mp hsource
  refine ⟨text, hpath, ?_⟩
  simp only [applyUpdate, hkind, hentry, htext, Option.bind_some, entryRelativePath_isAt he,
    Option.map_some]

lemma moved_eq (htarget : target = d ++ [name]) (hs : Tidy (pathOf cur) s.entries) :
    s.applyUpdate platform cur u =
      if d = pathOf cur then
        s.arrived platform (without source s.entries) (some source ∈ s.paths) e
      else s.moved platform (without source s.entries) (some source ∈ s.paths) := by
  obtain ⟨text, hpath, heq⟩ : ∃ text, pathOf text = source ∧ s.applyUpdate platform cur u = _ :=
    applyUpdate_moved hu he
  have hnames : Names u.parentRelativePath d := by
    have hnames := hu.2.2.1
    rwa [htarget, List.dropLast_concat] at hnames
  have hparent : _ ↔ d = pathOf cur := parent_iff he hnames
  have hsource : some source ∈ s.paths → normalizeFileRelativePath
      (parentRelativeDirectoryOf text) = normalizeFileRelativePath cur := by
    intro hshown
    obtain ⟨x, hx, hxpath⟩ := List.mem_map.mp hshown
    obtain ⟨name, hname⟩ := isIn_iff.mp (hs.named x hx).choose_spec.isIn
    refine normalize_eq_iff.mpr ?_
    rw [pathOf_parent, hpath, Option.some.inj (hxpath.symm.trans hname), List.dropLast_concat]
  have hsame : decide (some source ∈ s.paths) = false → without source s.entries = s.entries :=
    fun hnot => without_of_not_mem fun x hx h =>
      of_decide_eq_false hnot (h ▸ List.mem_map_of_mem hx)
  rw [heq, _moveIfRelevant, takeOut_eq hs hpath]
  simp only [Option.isSome_some, Bool.true_and, hparent, Option.getD_some]
  by_cases hd : d = pathOf cur
  · simp only [hd, decide_true, Bool.not_true, Bool.and_false, Bool.false_eq_true, if_false, if_true]
    exact putIn_eq he (distinct_without hs.distinct) hsame
  · simp only [hd, decide_false, Bool.not_false, Bool.and_true, Bool.false_eq_true, if_false]
    by_cases hshown : some source ∈ s.paths
    · simp only [hsource hshown, decide_true, Bool.not_true, Bool.false_eq_true, if_false]
    · simp only [hshown, decide_false, moved, Bool.false_eq_true, if_false, ite_self]

end Moved

/-! ### Tidy lists -/

lemma find_eq (hn : (l.map Entry.path).Nodup) (hx : x ∈ l) (hpath : x.path = e.path) :
    l.find? (·.path = e.path) = some x := by
  have hsome : (l.find? (·.path = e.path)).isSome = true :=
    List.find?_isSome.mpr ⟨x, hx, decide_eq_true hpath⟩
  obtain ⟨y, hy⟩ := Option.isSome_iff_exists.mp hsome
  have hypath : y.path = e.path := by simpa using List.find?_some hy
  rw [hy, Listings.eq_of_key hn (List.mem_of_find?_eq_some hy) hx (hypath.trans hpath.symm)]

lemma replace_self (hn : (l.map Entry.path).Nodup) (he : e ∈ l) : replace e l = l :=
  Listings.map_replace_self hn he rfl

lemma mem_replace (hx : x ∈ l) (hpath : x.path = e.path) : e ∈ replace e l :=
  List.mem_map.mpr ⟨x, hx, if_pos hpath⟩

lemma mem_sort : x ∈ sortFileDirectoryEntries platform l ↔ x ∈ l := (sorts platform).mem

namespace Tidy

lemma untied (h : Tidy dir l) : Listings.Untied NotAfter l :=
  DirectoryView.untied h.distinct h.named

lemma without (h : Tidy dir l) (p : Path) : Tidy dir (without p l) :=
  ⟨fun x hx => h.named x (List.mem_of_mem_filter hx), distinct_without h.distinct⟩

lemma replace (h : Tidy dir l) (he : e.IsAt dir name) : Tidy dir (replace e l) := by
  refine ⟨fun x hx => ?_, ?_⟩
  · obtain ⟨y, hy, rfl⟩ := List.mem_map.mp hx
    split_ifs
    · exact ⟨name, he⟩
    · exact h.named y hy
  · rw [DirectoryView.replace, Listings.map_key_replace rfl]
    exact h.distinct

lemma append (h : Tidy dir l) (he : e.IsAt dir name) (hnew : e.path ∉ l.map Entry.path) :
    Tidy dir (l ++ [e]) := by
  refine ⟨fun x hx => ?_, ?_⟩
  · rcases List.mem_append.mp hx with hx | hx
    · exact h.named x hx
    · exact List.mem_singleton.mp hx ▸ ⟨name, he⟩
  · rw [List.map_append]
    refine h.distinct.append (List.nodup_singleton _) fun p hp hp' => hnew ?_
    exact List.mem_singleton.mp hp' ▸ hp

lemma sort (h : Tidy dir l) : Tidy dir (sortFileDirectoryEntries platform l) :=
  ⟨fun x hx => h.named x (mem_sort.mp hx),
    (((sorts platform).perm l).map _).nodup_iff.mpr h.distinct⟩

end Tidy

/-- A sorted list with the entry is not changed when that is put in its place once more. -/
lemma withSorted_again (hl : Tidy dir l) (he : e ∈ l) :
    (s._withSortedEntries platform l)._withSortedEntries platform
      (replace e (s._withSortedEntries platform l).entries) = s._withSortedEntries platform l := by
  have hself : replace e (sortFileDirectoryEntries platform l) = sortFileDirectoryEntries platform l :=
    replace_self hl.sort.distinct (mem_sort.mpr he)
  have hsort : sortFileDirectoryEntries platform (sortFileDirectoryEntries platform l) =
      sortFileDirectoryEntries platform l := (sorts platform).sort_sort hl.untied
  simp only [_withSortedEntries, hself, hsort, Bool.or_assoc, Bool.or_self]

/-! ### The second time -/

lemma twice_of_eq (h : s.applyUpdate platform cur u = s) :
    (s.applyUpdate platform cur u).applyUpdate platform cur u = s.applyUpdate platform cur u := by
  rw [h, h]

lemma twice_added (hu : Describes u (.added e)) (he : e.IsAt d name)
    (hs : Tidy (pathOf cur) s.entries) :
    (s.applyUpdate platform cur u).applyUpdate platform cur u = s.applyUpdate platform cur u := by
  by_cases hd : d = pathOf cur
  · have hat : e.IsAt (pathOf cur) name := hd ▸ he
    -- Once the entry is in the list, it is found there.
    have hagain {l : List Entry} (hl : Tidy (pathOf cur) l) (hmem : e ∈ l) :
        (s._withSortedEntries platform l).applyUpdate platform cur u =
          s._withSortedEntries platform l := by
      rw [added_shown hu he hd hl.sort.distinct (mem_sort.mpr hmem) rfl,
        withSorted_again hl hmem, ite_self]
    by_cases hshown : e.path ∈ s.paths
    · obtain ⟨x, hx, hpath⟩ := List.mem_map.mp hshown
      have hfirst : s.applyUpdate platform cur u = _ := added_shown hu he hd hs.distinct hx hpath
      by_cases hsame : _mapShallowEquals platform x e = true
      · exact twice_of_eq (hfirst.trans (if_pos hsame))
      · rw [hfirst, if_neg hsame]
        exact hagain (hs.replace hat) (mem_replace hx hpath)
    · have hfirst : s.applyUpdate platform cur u = _ := added_new hu he hd hshown
      by_cases hcursor : s.nextCursor.isSome = true
      · rw [hfirst, if_pos hcursor, added_new hu he hd (s := s.markStale) hshown]
        exact if_pos hcursor
      · rw [hfirst, if_neg hcursor]
        exact hagain (hs.append hat hshown) (List.mem_append_right _ (List.mem_singleton_self e))
  · exact twice_of_eq (added_elsewhere hu he hd)

lemma twice_updated (hu : Describes u (.updated e)) (he : e.IsAt d name)
    (hs : Tidy (pathOf cur) s.entries) :
    (s.applyUpdate platform cur u).applyUpdate platform cur u = s.applyUpdate platform cur u := by
  by_cases hd : d = pathOf cur
  · by_cases hshown : e.path ∈ s.paths
    · obtain ⟨x, hx, hpath⟩ := List.mem_map.mp hshown
      have hfirst : s.applyUpdate platform cur u = _ := updated_shown hu he hd hs.distinct hx hpath
      by_cases hsame : _mapShallowEquals platform x e = true
      · exact twice_of_eq (hfirst.trans (if_pos hsame))
      · have hl : Tidy (pathOf cur) (replace e s.entries) := hs.replace (hd ▸ he)
        have hmem := mem_replace hx hpath
        rw [hfirst, if_neg hsame, updated_shown hu he hd hl.sort.distinct (mem_sort.mpr hmem) rfl,
          withSorted_again hl hmem, ite_self]
    · exact twice_of_eq (updated_absent hu he hshown)
  · exact twice_of_eq (updated_elsewhere hu he hd)

lemma not_mem_without (p : Path) (l : List Entry) : some p ∉ (without p l).map Entry.path := by
  intro h
  obtain ⟨x, hx, hpath⟩ := List.mem_map.mp h
  exact (mem_without.mp hx).2 hpath

variable (platform) in
/-- What a removal does to the view, in all cases. -/
lemma removed_cases (hu : Describes u (.removed p)) (hs : Tidy (pathOf cur) s.entries) :
    (some p ∉ s.paths ∨
      u.parentRelativePath = none ∧ u.sourcePath = none ∧ pathOf cur ≠ []) ∧
        s.applyUpdate platform cur u = s ∨
    (some p ∈ s.paths ∧ (u.parentRelativePath = none → u.sourcePath = none → pathOf cur = [])) ∧
      s.applyUpdate platform cur u =
        { s with
          entries := without p s.entries
          isStale := s.isStale || s.nextCursor.isSome } := by
  by_cases hshown : some p ∈ s.paths
  · by_cases hnamed : u.parentRelativePath = none → u.sourcePath = none → pathOf cur = []
    · obtain ⟨x, hx, hpath⟩ := List.mem_map.mp hshown
      obtain ⟨name, hat⟩ := hs.named x hx
      have hp : p = pathOf cur ++ [name] := Option.some.inj (hpath.symm.trans hat.1)
      exact .inr ⟨⟨hshown, hnamed⟩, removed_shown hu hnamed hp hs.distinct hshown⟩
    · simp only [not_forall] at hnamed
      obtain ⟨hparent, hsource, hcur⟩ := hnamed
      exact .inl ⟨.inr ⟨hparent, hsource, hcur⟩, removed_unnamed hu hparent hsource hcur⟩
  · exact .inl ⟨.inl hshown, removed_absent hu hshown⟩

lemma twice_removed (hu : Describes u (.removed p)) (hs : Tidy (pathOf cur) s.entries) :
    (s.applyUpdate platform cur u).applyUpdate platform cur u = s.applyUpdate platform cur u := by
  rcases removed_cases platform hu hs with ⟨-, h⟩ | ⟨-, h⟩
  · exact twice_of_eq h
  · rw [h]
    exact removed_absent hu (not_mem_without p s.entries)

lemma without_self (h : some p ∉ l.map Entry.path) : without p l = l :=
  without_of_not_mem fun _ hx hpath => h (hpath ▸ List.mem_map_of_mem hx)

lemma paths_withSorted : some p ∈ (s._withSortedEntries platform l).paths ↔
    some p ∈ l.map Entry.path :=
  ((((sorts platform).perm l).map Entry.path)).mem_iff

/-- The view after a move, where the source is not shown any more. -/
lemma arrived_again (hl : Tidy dir l) (hmem : x ∈ l) (hpath : x.path = e.path)
    (hx : x = e ∨ _mapShallowEquals platform x e = true) :
    (s._withSortedEntries platform l).arrived platform (s._withSortedEntries platform l).entries
      false e = s._withSortedEntries platform l := by
  have hfind : (s._withSortedEntries platform l).entries.find? (·.path = e.path) = some x :=
    find_eq hl.sort.distinct (mem_sort.mpr hmem) hpath
  rw [arrived, hfind]
  by_cases hsame : _mapShallowEquals platform x e = true
  · exact if_pos hsame
  · obtain rfl := hx.resolve_right hsame
    exact (if_neg hsame).trans (withSorted_again hl hmem)

lemma twice_moved (hu : Describes u (.moved source target e)) (he : e.IsAt d name)
    (htarget : target = d ++ [name]) (hne : source ≠ target) (hs : Tidy (pathOf cur) s.entries) :
    (s.applyUpdate platform cur u).applyUpdate platform cur u = s.applyUpdate platform cur u := by
  have hleft : Tidy (pathOf cur) (without source s.entries) := hs.without source
  have hfirst : s.applyUpdate platform cur u = _ := moved_eq hu he htarget hs
  -- A list that is sorted without the source stays as it is.
  have hsorted {l : List Entry} (hl : Tidy (pathOf cur) l) (hgone : some source ∉ l.map Entry.path) :
      (s._withSortedEntries platform l).applyUpdate platform cur u =
        if d = pathOf cur then
          (s._withSortedEntries platform l).arrived platform
            (s._withSortedEntries platform l).entries false e
        else s._withSortedEntries platform l := by
    have hgone' : some source ∉ (s._withSortedEntries platform l).paths :=
      fun h => hgone (paths_withSorted.mp h)
    have hkept : without source (s._withSortedEntries platform l).entries =
        (s._withSortedEntries platform l).entries := without_self hgone'
    have heq : (s._withSortedEntries platform l).applyUpdate platform cur u = _ :=
      moved_eq hu he htarget hl.sort
    rw [heq, hkept]
    simp only [hgone', decide_false, moved, Bool.false_eq_true, if_false]
  by_cases hd : d = pathOf cur
  · have hat : e.IsAt (pathOf cur) name := hd ▸ he
    simp only [hd, if_true] at hfirst
    cases hfind : (without source s.entries).find? (·.path = e.path) with
    | some x =>
      have hx := List.mem_of_find?_eq_some hfind
      have hpath : x.path = e.path := by simpa using List.find?_some hfind
      rw [arrived, hfind] at hfirst
      by_cases hsame : _mapShallowEquals platform x e = true
      · simp only [hsame, if_true] at hfirst
        by_cases hshown : some source ∈ s.paths
        · simp only [hshown, decide_true, moved, if_true] at hfirst
          rw [hfirst, hsorted hleft (not_mem_without _ _), if_pos hd]
          exact arrived_again hleft hx hpath (.inr hsame)
        · simp only [hshown, decide_false, moved, Bool.false_eq_true, if_false] at hfirst
          exact twice_of_eq hfirst
      · simp only [hsame, moved, Bool.false_eq_true, if_false, if_true] at hfirst
        have hgone : some source ∉ (replace e (without source s.entries)).map Entry.path := by
          rw [replace, Listings.map_key_replace rfl]
          exact not_mem_without _ _
        rw [hfirst, hsorted (hleft.replace hat) hgone, if_pos hd]
        exact arrived_again (hleft.replace hat) (mem_replace hx hpath) rfl (.inl rfl)
    | none =>
      have hnew : e.path ∉ (without source s.entries).map Entry.path := by
        intro hmem
        obtain ⟨x, hx, hpath⟩ := List.mem_map.mp hmem
        exact absurd hpath (by simpa using List.find?_eq_none.mp hfind x hx)
      rw [arrived, hfind] at hfirst
      by_cases hcursor : s.nextCursor.isNone = true
      · simp only [hcursor, moved, if_true] at hfirst
        have hgone : some source ∉ (without source s.entries ++ [e]).map Entry.path := by
          rw [List.map_append, List.mem_append]
          refine not_or.mpr ⟨not_mem_without _ _, fun h => hne ?_⟩
          rw [htarget]
          exact Option.some.inj ((List.mem_singleton.mp h).trans he.1)
        rw [hfirst, hsorted (hleft.append hat hnew) hgone, if_pos hd]
        exact arrived_again (hleft.append hat hnew)
          (List.mem_append_right _ (List.mem_singleton_self e)) rfl (.inl rfl)
      · simp only [hcursor, Bool.false_eq_true, if_false] at hfirst
        have hsecond : FileDirectoryState.applyUpdate platform
            { s with entries := without source s.entries, isStale := true } cur u = _ :=
          moved_eq hu he htarget hleft
        rw [hfirst, hsecond, if_pos hd]
        simp only [without_self (not_mem_without source s.entries), arrived, hfind, hcursor,
          Bool.false_eq_true, if_false]
  · simp only [hd, if_false] at hfirst
    by_cases hshown : some source ∈ s.paths
    · simp only [hshown, decide_true, moved, if_true] at hfirst
      rw [hfirst, hsorted hleft (not_mem_without _ _), if_neg hd]
    · simp only [hshown, decide_false, moved, Bool.false_eq_true, if_false] at hfirst
      exact twice_of_eq hfirst

end MouseKeeper.Mobile.DirectoryView
