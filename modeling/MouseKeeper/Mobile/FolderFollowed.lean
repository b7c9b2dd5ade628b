import MouseKeeper.Machine
import MouseKeeper.Mobile.FolderView

/-!
The view of a folder, as changes are made to the tree.

The view stays the listing of the folder, or says that it is out of date, and shows no entry
twice; except where an update is passed over that concerns it.
-/

namespace MouseKeeper.Mobile.DirectoryView

open FileDirectoryState
open Machine (Throughout Meets)

variable (platform : Platform)

/-! ### What must hold -/

/-- The view is the listing of the folder; or the beginning of it, as long as there is a cursor and
the view does not say that it is out of date. -/
structure Loaded (t : List Entry) (dir : Path) (s : FileDirectoryState) : Prop where
  tidy : Tidy dir s.entries
  whole : s.nextCursor = none → s.isStale = false ∧ s.entries = listing platform t dir
  part : s.nextCursor ≠ none → s.isStale = true ∨ s.entries <+: listing platform t dir

/-- The view of the folder after an update that leaves the tree `t`. -/
structure Follows (t : List Entry) (dir : String) (u : FileDirectoryUpdate)
    (s : FileDirectoryState) : Prop where
  whole : s.nextCursor = none →
    s.applyUpdate platform dir u = { s with entries := listing platform t (pathOf dir) }
  part : s.nextCursor ≠ none → (s.applyUpdate platform dir u).isStale = true ∨
    (s.applyUpdate platform dir u).entries <+: listing platform t (pathOf dir)
  twice : (s.applyUpdate platform dir u).applyUpdate platform dir u = s.applyUpdate platform dir u

/-- The entry that is shown does not pass for the new one. -/
def Differs (s : FileDirectoryState) (entry : Entry) : Prop :=
  ∀ x ∈ s.entries, x.path = entry.path → _mapShallowEquals platform x entry = true → x = entry

/-- The update is not passed over where it concerns the folder: the folder itself is neither taken
away nor brought along with what it lists, and an entry that is removed is named by more than
itself. -/
def Noticed (t : List Entry) (dir : Path) (u : FileDirectoryUpdate) (s : FileDirectoryState) :
    Change → Prop
  | .added _ => True
  | .removed path => (path <+: dir → s.entries = []) ∧
      (u.parentRelativePath = none → u.sourcePath = none → dir ≠ [] → some path ∉ s.paths)
  | .updated entry => Differs platform s entry ∧
      (entry.isIn dir = true → entry.path ∉ s.paths → ∀ x ∈ s.entries, NotAfter x entry)
  | .moved source target entry => (source <+: dir → s.entries = []) ∧
      (∀ rest, s.nextCursor = none → dir = target ++ rest → children t (source ++ rest) = []) ∧
      (s.nextCursor = none ∨ some source ∉ s.paths → Differs platform s entry)

variable {platform} {t l : List Entry} {s : FileDirectoryState} {u : FileDirectoryUpdate}
  {x e : Entry} {dir p d source target : Path} {name : List Char} {cur text : String}

/-! ### Views that are out of date -/

lemma stale_withSorted (h : s.isStale = true) : (s._withSortedEntries platform l).isStale = true := by
  rw [_withSortedEntries, h]
  rfl

lemma stale_replaceAt (h : s.isStale = true) (i : ℕ) (e : Entry) :
    (s._replaceAt platform i e).isStale = true := by
  unfold _replaceAt
  split
  · split_ifs
    · exact h
    · exact stale_withSorted h
  · exact h

lemma stale_addOrMarkStale (h : s.isStale = true) (parent : Option String) (entry : Option Entry) :
    (s._addOrMarkStale platform cur parent entry).isStale = true := by
  unfold _addOrMarkStale
  split
  · exact h
  · split
    · exact h
    · split
      · exact h
      · split
        · exact stale_replaceAt h _ _
        · split
          · rfl
          · exact stale_withSorted h

lemma stale_replaceIfVisible (h : s.isStale = true) (parent : Option String)
    (entry : Option Entry) : (s._replaceIfVisible platform cur parent entry).isStale = true := by
  unfold _replaceIfVisible
  split
  · exact h
  · split_ifs
    · exact h
    · split
      · exact h
      · split
        · exact stale_replaceAt h _ _
        · exact h

lemma stale_removeIfVisible (h : s.isStale = true) (parent path : Option String) :
    (s._removeIfVisible cur parent path).isStale = true := by
  unfold _removeIfVisible
  split
  · exact h
  · split_ifs
    · exact h
    · split
      · exact h
      · simp only [h, Bool.true_or]

lemma stale_moved (h : s.isStale = true) (changed : Bool) :
    (s.moved platform l changed).isStale = true := by
  unfold moved
  split_ifs
  · exact stale_withSorted h
  · exact h

lemma stale_putIn (h : s.isStale = true) (changed : Bool) (e : Entry) :
    (s.putIn platform l changed e).isStale = true := by
  unfold putIn
  split
  · exact h
  · split
    · split
      · split_ifs
        · exact stale_moved h _
        · exact stale_moved h _
      · exact h
    · split_ifs
      · exact stale_moved h _
      · rfl
      · rfl

lemma stale_moveIfRelevant (h : s.isStale = true) (sourceParent source destination : Option String)
    (entry : Option Entry) :
    (s._moveIfRelevant platform cur sourceParent source destination entry).isStale = true := by
  simp only [_moveIfRelevant]
  split_ifs
  · exact h
  · split
    · exact stale_moved h _
    · exact stale_putIn h _ _
  · split
    · exact stale_moved h _
    · exact stale_putIn h _ _

/-- A view that is out of date stays so. -/
lemma stale_applyUpdate (h : s.isStale = true) :
    (s.applyUpdate platform cur u).isStale = true := by
  unfold applyUpdate
  split
  · exact stale_addOrMarkStale h _ _
  · exact stale_replaceIfVisible h _ _
  · exact stale_removeIfVisible h _ _
  · exact stale_moveIfRelevant h _ _ _ _

/-! ### Listings -/

variable {m : List Entry} {r : FileDirectoryState}

/-- What is left of the view is right for the listing `l`. -/
structure Right (l : List Entry) (s r : FileDirectoryState) : Prop where
  whole : s.nextCursor = none → r = { s with entries := l }
  part : s.nextCursor ≠ none → r.isStale = true ∨ r.entries <+: l

lemma right_self_iff (h : s.isStale = false) : Right l s s ↔
    (s.nextCursor = none → s.entries = l) ∧ (s.nextCursor ≠ none → s.entries <+: l) := by
  constructor
  · rintro ⟨hwhole, hpart⟩
    refine ⟨fun hc => congrArg entries (hwhole hc), fun hc => (hpart hc).resolve_left ?_⟩
    rw [h]
    exact Bool.false_ne_true
  · rintro ⟨hwhole, hpart⟩
    refine ⟨fun hc => ?_, fun hc => .inr (hpart hc)⟩
    rw [← hwhole hc]

lemma right_sorted (h : s.isStale = false)
    (hl : s.nextCursor = none → sortFileDirectoryEntries platform m = l) :
    Right l s (s._withSortedEntries platform m) := by
  refine ⟨fun hc => ?_, fun hc => .inl ?_⟩
  · rw [_withSortedEntries, hl hc, hc, h]
    rfl
  · rw [_withSortedEntries, Option.isSome_iff_ne_none.mpr hc, Bool.or_true]

variable (platform) in
/-- A view that does not say that it is out of date. -/
structure Fresh (t : List Entry) (dir : Path) (s : FileDirectoryState) : Prop where
  stale : s.isStale = false
  tidy : Tidy dir s.entries
  whole : s.nextCursor = none → s.entries = listing platform t dir
  part : s.entries <+: listing platform t dir

lemma Loaded.fresh (h : Loaded platform t dir s) (hs : s.isStale = false) :
    Fresh platform t dir s := by
  refine ⟨hs, h.tidy, fun hc => (h.whole hc).2, ?_⟩
  by_cases hc : s.nextCursor = none
  · rw [(h.whole hc).2]
  · exact (h.part hc).resolve_left (by rw [hs]; exact Bool.false_ne_true)

lemma tidy_children (ht : IsTree t) (dir : Path) : Tidy dir (children t dir) :=
  ⟨fun x hx => (ht.named x (mem_children.mp hx).1).isAt (mem_children.mp hx).2,
    (ht.children dir).distinct⟩

lemma Fresh.mem (h : Fresh platform t dir s) (hx : x ∈ s.entries) : x ∈ children t dir :=
  mem_sort.mp (h.part.subset hx)

lemma Fresh.right_self (h : Fresh platform t dir s) : Right (listing platform t dir) s s :=
  (right_self_iff h.stale).mpr ⟨h.whole, fun _ => h.part⟩

/-- Entries that are not shown are taken out of the listing. -/
lemma Fresh.right_without (h : Fresh platform t dir s) (ht : IsTree t) (hp : some p ∉ s.paths) :
    Right (sortFileDirectoryEntries platform (without p (children t dir))) s s := by
  have hu := (tidy_children ht dir).untied
  have hshown : ∀ x ∈ s.entries, decide (x.path ≠ some p) = true := fun x hx =>
    decide_eq_true fun hpath => hp (hpath ▸ List.mem_map_of_mem hx)
  refine (right_self_iff h.stale).mpr ⟨fun hc => ?_, fun _ => ?_⟩
  · rw [without, (sorts platform).sort_filter hu]
    exact (List.filter_eq_self.mpr fun x hx => hshown x (h.whole hc ▸ hx)).symm ▸ h.whole hc
  · exact (sorts platform).prefix_filter hu h.part hshown

/-- The one entry of a listing that has the path. -/
lemma Right.eq_of_path (h : Right (sortFileDirectoryEntries platform m) s s)
    (hs : s.isStale = false) (hm : Tidy dir m) (hx : x ∈ s.entries) (he : e ∈ m)
    (hpath : x.path = e.path) : x = e := by
  obtain ⟨hwhole, hpart⟩ := (right_self_iff hs).mp h
  have hmem : x ∈ sortFileDirectoryEntries platform m := by
    by_cases hc : s.nextCursor = none
    · exact hwhole hc ▸ hx
    · exact (hpart hc).subset hx
  exact Listings.eq_of_key hm.distinct (mem_sort.mp hmem) he hpath

/-! ### Each kind of update -/

lemma isIn_eq_false (he : e.IsAt d name) (h : d ≠ dir) : e.isIn dir = false :=
  Bool.eq_false_iff.mpr fun hin => h (he.dir_eq hin)

lemma Tidy.path_of_mem (hl : Tidy dir l) (hx : some p ∈ l.map Entry.path) :
    ∃ name, p = dir ++ [name] := by
  obtain ⟨x, hx, hpath⟩ := List.mem_map.mp hx
  obtain ⟨name, hat⟩ := hl.named x hx
  exact ⟨name, Option.some.inj (hpath.symm.trans hat.1)⟩

lemma Tidy.not_mem_of_ne (hl : Tidy dir l) (he : e.IsAt d name) (h : d ≠ dir) :
    e.path ∉ l.map Entry.path := by
  intro hmem
  rw [he.1] at hmem
  obtain ⟨name', heq⟩ := hl.path_of_mem hmem
  exact h (List.append_inj' heq rfl).1

lemma children_singleton (e : Entry) (dir : Path) :
    children [e] dir = if e.isIn dir = true then [e] else [] := by
  rw [children_cons]
  exact List.append_nil _

lemma right_added (ht : IsTree t) (hc : (Change.added e).Possible t)
    (hu : Describes u (.added e)) (hs : Fresh platform t (pathOf cur) s) :
    Right (listing platform (t ++ [e]) (pathOf cur)) s (s.applyUpdate platform cur u) := by
  obtain ⟨⟨d, name, he⟩, hnew⟩ := hc
  rw [listing, children_append, children_singleton]
  by_cases hd : d = pathOf cur
  · have hin : e.isIn (pathOf cur) = true := hd ▸ he.isIn
    have hnotin : e.path ∉ (children t (pathOf cur)).map Entry.path := fun hmem =>
      have ⟨x, hx, hpath⟩ := List.mem_map.mp hmem
      hnew (hpath ▸ List.mem_map_of_mem (mem_children.mp hx).1)
    have hshown : e.path ∉ s.paths := fun hmem =>
      have ⟨x, hx, hpath⟩ := List.mem_map.mp hmem
      hnotin (hpath ▸ List.mem_map_of_mem (hs.mem hx))
    have hu' := ((tidy_children ht (pathOf cur)).append (hd ▸ he) hnotin).untied
    rw [if_pos hin, added_new hu he hd hshown]
    by_cases hcursor : s.nextCursor.isSome = true
    · rw [if_pos hcursor]
      refine ⟨fun h => ?_, fun _ => .inl rfl⟩
      rw [h] at hcursor
      exact absurd hcursor Bool.false_ne_true
    · rw [if_neg hcursor]
      refine right_sorted hs.stale fun h => (sorts platform).sort_congr hu' ?_
      rw [hs.whole h]
      exact ((sorts platform).perm _).append_right [e]
  · rw [if_neg (Bool.eq_false_iff.mp (isIn_eq_false he hd)), List.append_nil, added_elsewhere hu he hd]
    exact hs.right_self

lemma right_removed (ht : IsTree t) (hu : Describes u (.removed p))
    (hs : Fresh platform t (pathOf cur) s) :
    Right (listing platform (t.filter (!·.under p)) (pathOf cur)) s (s.applyUpdate platform cur u) ↔
      Noticed platform t (pathOf cur) u s (.removed p) := by
  have hcases := removed_cases platform hu hs.tidy
  by_cases hp : p <+: pathOf cur
  · -- The folder itself is gone.
    have hshown : some p ∉ s.paths := by
      intro hmem
      obtain ⟨name, rfl⟩ := hs.tidy.path_of_mem hmem
      have hlength := hp.length_le
      rw [List.length_append, List.length_singleton] at hlength
      omega
    have hsame := (hcases.resolve_right fun h => hshown h.1.1).2
    have hnil : listing platform (t.filter (!·.under p)) (pathOf cur) = [] := by
      rw [listing, children_filter_inside hp]
      exact List.perm_nil.mp ((sorts platform).perm [])
    rw [hsame, hnil, right_self_iff hs.stale]
    constructor
    · rintro ⟨hwhole, hpart⟩
      refine ⟨fun _ => ?_, fun _ _ _ => hshown⟩
      by_cases hc : s.nextCursor = none
      · exact hwhole hc
      · exact List.prefix_nil.mp (hpart hc)
    · rintro ⟨hempty, -⟩
      exact ⟨fun _ => hempty hp, fun _ => hempty hp ▸ List.prefix_refl _⟩
  · have hlisting : listing platform (t.filter (!·.under p)) (pathOf cur) =
        sortFileDirectoryEntries platform (without p (children t (pathOf cur))) := by
      rw [listing, children_filter_under hp]
    rw [hlisting]
    rcases hcases with ⟨hwhy, hsame⟩ | ⟨⟨-, hnamed⟩, herased⟩
    · rw [hsame]
      by_cases hshown : some p ∈ s.paths
      · -- The entry that is removed is still shown.
        obtain ⟨hparent, hsource, hcur⟩ := hwhy.resolve_left (not_not_intro hshown)
        refine iff_of_false (fun hright => ?_) fun hnoticed => ?_
        · obtain ⟨x, hx, hpath⟩ := List.mem_map.mp hshown
          obtain ⟨hwhole, hpart⟩ := (right_self_iff hs.stale).mp hright
          have hmem : x ∈ sortFileDirectoryEntries platform (without p (children t (pathOf cur))) := by
            by_cases hc : s.nextCursor = none
            · exact hwhole hc ▸ hx
            · exact (hpart hc).subset hx
          exact (mem_without.mp (mem_sort.mp hmem)).2 hpath
        · exact hnoticed.2 hparent hsource hcur hshown
      · exact iff_of_true (hs.right_without ht hshown) ⟨fun h => absurd h hp, fun _ _ _ => hshown⟩
    · rw [herased]
      refine iff_of_true ⟨fun hc => ?_, fun hc => .inl ?_⟩
        ⟨fun h => absurd h hp, fun hparent hsource hcur => absurd (hnamed hparent hsource) hcur⟩
      · rw [hc, hs.stale, hs.whole hc, listing, without, without,
          (sorts platform).sort_filter (tidy_children ht _).untied]
        rfl
      · change (s.isStale || s.nextCursor.isSome) = true
        rw [Option.isSome_iff_ne_none.mpr hc, Bool.or_true]

/-- Where the new entry passes for the old one, the view is right only if they are the same. -/
lemma Right.replace_iff (h : Right (sortFileDirectoryEntries platform m) s s)
    (hs : s.isStale = false) (hm : Tidy dir m) (he : e.IsAt dir name) (hx : x ∈ s.entries)
    (hxm : x ∈ m) (hpath : x.path = e.path) :
    Right (sortFileDirectoryEntries platform (replace e m)) s s ↔ x = e := by
  constructor
  · exact fun hright =>
      hright.eq_of_path hs (hm.replace he) hx (mem_replace hxm hpath) hpath
  · rintro rfl
    rwa [replace_self hm.distinct hxm]

lemma replace_perm (hn : (l.map Entry.path).Nodup) (hx : x ∈ l) (hpath : x.path = e.path)
    (he : e.path = some p) : (replace e l).Perm (e :: without p l) := by
  induction l with
  | nil => exact absurd hx List.not_mem_nil
  | cons y l ih =>
    obtain ⟨hy, hn⟩ := List.nodup_cons.mp hn
    by_cases hyp : y.path = e.path
    · have hrest : ∀ z ∈ l, z.path ≠ e.path := fun z hz hzp =>
        hy (hyp.trans hzp.symm ▸ List.mem_map_of_mem hz)
      have hkept : without p l = l := without_of_not_mem fun z hz => he ▸ hrest z hz
      rw [replace, List.map_cons, if_pos hyp, without, List.filter_cons_of_neg (by simp [hyp, he])]
      change (e :: replace e l).Perm (e :: without p l)
      rw [replace_of_not_mem hrest, hkept]
    · have hx : x ∈ l := (List.mem_cons.mp hx).resolve_left fun h => hyp (h ▸ hpath)
      rw [replace, List.map_cons, if_neg hyp, without, List.filter_cons_of_pos (by simpa [he] using hyp)]
      exact ((ih hn hx).cons y).trans (List.Perm.swap e y _)

lemma differs_iff (hn : (s.entries.map Entry.path).Nodup) (hx : x ∈ s.entries)
    (hpath : x.path = e.path) :
    Differs platform s e ↔ (_mapShallowEquals platform x e = true → x = e) := by
  constructor
  · exact fun h => h x hx hpath
  · intro h y hy hypath
    rw [Listings.eq_of_key hn hy hx (hypath.trans hpath.symm)]
    exact h

lemma differs_of_not_mem (h : e.path ∉ s.paths) : Differs platform s e :=
  fun _ hx hpath => absurd (hpath ▸ List.mem_map_of_mem hx) h

/-- An entry that is not shown yet may change, if it stays behind those that are. -/
lemma Fresh.right_behind_iff (hs : Fresh platform t dir s) (ht : IsTree t) (he : e.IsAt dir name)
    (hmem : e.path ∈ t.map Entry.path) (hshown : e.path ∉ s.paths) :
    Right (sortFileDirectoryEntries platform (replace e (children t dir))) s s ↔
      ∀ x ∈ s.entries, NotAfter x e := by
  have hm := tidy_children ht dir
  obtain ⟨y, hy, hypath⟩ := List.mem_map.mp hmem
  have hy : y ∈ children t dir := mem_children.mpr ⟨hy, (isIn_of_path hypath).trans he.isIn⟩
  have hc : s.nextCursor ≠ none := fun hc =>
    hshown (hypath ▸ List.mem_map_of_mem (hs.whole hc ▸ mem_sort.mpr hy))
  have hperm := replace_perm hm.distinct hy hypath he.1
  have hu : Listings.Untied NotAfter (e :: without (dir ++ [name]) (children t dir)) :=
    (hm.replace he).untied.mono fun x hx => hperm.mem_iff.mpr hx
  have hbegin : s.entries <+:
      sortFileDirectoryEntries platform (without (dir ++ [name]) (children t dir)) :=
    ((right_self_iff hs.stale).mp (hs.right_without ht (he.1 ▸ hshown))).2 hc
  have hnot : e ∉ s.entries := fun h => hshown (List.mem_map_of_mem h)
  rw [(sorts platform).sort_congr hu hperm, right_self_iff hs.stale,
    ← (sorts platform).prefix_cons_iff hu hbegin hnot]
  exact ⟨fun h => h.2 hc, fun h => ⟨fun h' => absurd h' hc, fun _ => h⟩⟩

lemma right_updated (ht : IsTree t) (hc : (Change.updated e).Possible t)
    (hu : Describes u (.updated e)) (hs : Fresh platform t (pathOf cur) s) :
    Right (listing platform (replace e t) (pathOf cur)) s (s.applyUpdate platform cur u) ↔
      Noticed platform t (pathOf cur) u s (.updated e) := by
  obtain ⟨⟨d, name, he⟩, hmem⟩ := hc
  have hm := tidy_children ht (pathOf cur)
  rw [listing, children_replace]
  by_cases hd : d = pathOf cur
  · have hat : e.IsAt (pathOf cur) name := hd ▸ he
    by_cases hshown : e.path ∈ s.paths
    · obtain ⟨x, hx, hpath⟩ := List.mem_map.mp hshown
      have hnoticed : Noticed platform t (pathOf cur) u s (.updated e) ↔
          (_mapShallowEquals platform x e = true → x = e) := by
        rw [← differs_iff hs.tidy.distinct hx hpath]
        exact and_iff_left fun _ h => absurd hshown h
      rw [hnoticed, updated_shown hu he hd hs.tidy.distinct hx hpath]
      by_cases hsame : _mapShallowEquals platform x e = true
      · rw [if_pos hsame]
        refine (hs.right_self.replace_iff hs.stale hm hat hx (hs.mem hx) hpath).trans ?_
        exact ⟨fun h _ => h, fun h => h hsame⟩
      · rw [if_neg hsame]
        refine iff_of_true (right_sorted hs.stale fun hc => ?_) fun h => absurd h hsame
        refine (sorts platform).sort_congr (hm.replace hat).untied ?_
        rw [hs.whole hc]
        exact ((sorts platform).perm _).map _
    · rw [updated_absent hu he hshown, hs.right_behind_iff ht hat hmem hshown]
      constructor
      · exact fun h => ⟨differs_of_not_mem hshown, fun _ _ => h⟩
      · exact fun h => h.2 hat.isIn hshown
  · have hin := isIn_eq_false he hd
    have hshown : e.path ∉ s.paths := hs.tidy.not_mem_of_ne he hd
    have hnot : e.path ∉ (children t (pathOf cur)).map Entry.path := hm.not_mem_of_ne he hd
    rw [updated_elsewhere hu he hd,
      replace_of_not_mem fun x hx h => hnot (h ▸ List.mem_map_of_mem hx)]
    refine iff_of_true hs.right_self ⟨differs_of_not_mem hshown, fun h => ?_⟩
    rw [hin] at h
    exact absurd h Bool.false_ne_true

section Moves

variable (ht : IsTree t) (hc : (Change.moved source target e).Possible t)
  (hu : Describes u (.moved source target e)) (hs : Fresh platform t (pathOf cur) s)
  (he : e.IsAt d name) (htarget : target = d ++ [name])
include ht hc hu hs he htarget

/-- The folder is moved away. -/
lemma right_moved_source (hsource : source <+: pathOf cur) :
    Right (listing platform (moveInto source target e t) (pathOf cur)) s
      (s.applyUpdate platform cur u) ↔
      Noticed platform t (pathOf cur) u s (.moved source target e) := by
  have hnil : listing platform (moveInto source target e t) (pathOf cur) = [] := by
    rw [listing, children_source ht hc hsource]
    exact List.perm_nil.mp ((sorts platform).perm [])
  obtain ⟨-, -, -, hst, hts, -⟩ := hc
  have hd : d ≠ pathOf cur := by
    rintro rfl
    exact hst (htarget ▸ hsource.trans (List.prefix_append _ _))
  have hshown : some source ∉ s.paths := by
    intro hmem
    obtain ⟨name', rfl⟩ := hs.tidy.path_of_mem hmem
    have hlength := hsource.length_le
    rw [List.length_append, List.length_singleton] at hlength
    omega
  have hsame : s.applyUpdate platform cur u = _ := moved_eq hu he htarget hs.tidy
  simp only [hd, hshown, decide_false, moved, Bool.false_eq_true, if_false] at hsame
  rw [hsame, hnil, right_self_iff hs.stale]
  constructor
  · rintro ⟨hwhole, hpart⟩
    refine ⟨fun _ => ?_, fun rest _ hrest => ?_, fun _ => ?_⟩
    · by_cases hc : s.nextCursor = none
      · exact hwhole hc
      · exact List.prefix_nil.mp (hpart hc)
    · have hprefix : target <+: pathOf cur := hrest ▸ List.prefix_append _ _
      exact (incomparable hst hts hsource hprefix).elim
    · exact differs_of_not_mem (hs.tidy.not_mem_of_ne he hd)
  · rintro ⟨hempty, -⟩
    exact ⟨fun _ => hempty hsource, fun _ => hempty hsource ▸ List.prefix_refl _⟩

/-- The folder comes along with what is moved. -/
lemma right_moved_target {rest : Path} (hrest : pathOf cur = target ++ rest) :
    Right (listing platform (moveInto source target e t) (pathOf cur)) s
      (s.applyUpdate platform cur u) ↔
      Noticed platform t (pathOf cur) u s (.moved source target e) := by
  have hprefix : target <+: pathOf cur := hrest ▸ List.prefix_append _ _
  have hd : d ≠ pathOf cur := by
    rintro rfl
    have hlength := hprefix.length_le
    rw [htarget, List.length_append, List.length_singleton] at hlength
    omega
  have hempty : s.entries = [] := by
    refine List.eq_nil_iff_forall_not_mem.mpr fun x hx => ?_
    have hmem := hs.mem hx
    rw [children_target hc hprefix] at hmem
    exact List.not_mem_nil hmem
  have hshown : some source ∉ s.paths := by
    rw [paths, hempty]
    exact List.not_mem_nil
  have hsame : s.applyUpdate platform cur u = _ := moved_eq hu he htarget hs.tidy
  simp only [hd, hshown, decide_false, moved, Bool.false_eq_true, if_false] at hsame
  have hlisting : [] = listing platform (moveInto source target e t) (pathOf cur) ↔
      children t (source ++ rest) = [] := by
    rw [← children_moveInto_eq_nil_iff ht hc, ← hrest]
    constructor
    · exact fun h => List.perm_nil.mp (h ▸ ((sorts platform).perm _).symm)
    · intro h
      rw [listing, h]
      exact (List.perm_nil.mp ((sorts platform).perm [])).symm
  rw [hsame, right_self_iff hs.stale, hempty, hlisting]
  constructor
  · rintro ⟨hwhole, -⟩
    refine ⟨fun _ => hempty, fun rest' hcursor hrest' => ?_,
      fun _ => differs_of_not_mem (hs.tidy.not_mem_of_ne he hd)⟩
    rw [← List.append_cancel_left (hrest.symm.trans hrest')]
    exact hwhole hcursor
  · rintro ⟨-, hbrought, -⟩
    exact ⟨fun hcursor => hbrought rest hcursor hrest, fun _ => List.nil_prefix⟩

/-- The entry goes, if it was in the folder, and does not arrive there. -/
lemma right_moved_away (hsource : ¬source <+: pathOf cur) (htarget' : ¬target <+: pathOf cur)
    (hd : d ≠ pathOf cur) :
    Right (listing platform (moveInto source target e t) (pathOf cur)) s
      (s.applyUpdate platform cur u) := by
  have hm := tidy_children ht (pathOf cur)
  have hnot : some target ∉ (without source (children t (pathOf cur))).map Entry.path := by
    rw [htarget, ← he.1]
    exact (hm.without source).not_mem_of_ne he hd
  have hsame : s.applyUpdate platform cur u = _ := moved_eq hu he htarget hs.tidy
  rw [listing, children_moveInto ht (valid_path hc.2.2.1) hsource htarget', without_self hnot,
    if_neg (Bool.eq_false_iff.mp (isIn_eq_false he hd)), List.append_nil]
  simp only [hd, if_false] at hsame
  by_cases hshown : some source ∈ s.paths
  · simp only [hshown, decide_true, moved, if_true] at hsame
    rw [hsame]
    refine right_sorted hs.stale fun h => (sorts platform).sort_congr (hm.without source).untied ?_
    rw [hs.whole h]
    exact ((sorts platform).perm _).filter _
  · simp only [hshown, decide_false, moved, Bool.false_eq_true, if_false] at hsame
    rw [hsame]
    exact hs.right_without ht hshown

/-- The entry arrives in the folder. -/
lemma right_moved_into (hsource : ¬source <+: pathOf cur) (htarget' : ¬target <+: pathOf cur)
    (hd : d = pathOf cur) :
    Right (listing platform (moveInto source target e t) (pathOf cur)) s
      (s.applyUpdate platform cur u) ↔
      (s.nextCursor = none ∨ some source ∉ s.paths → Differs platform s e) := by
  have hat : e.IsAt (pathOf cur) name := hd ▸ he
  have hpathe : e.path = some target := hc.2.2.1
  have hm : Tidy (pathOf cur) (without source (children t (pathOf cur))) :=
    (tidy_children ht (pathOf cur)).without source
  -- Where all is loaded, what is left of the view is what is left of the folder.
  have hleft (h : s.nextCursor = none) :
      (without source s.entries).Perm (without source (children t (pathOf cur))) := by
    rw [hs.whole h]
    exact ((sorts platform).perm _).filter _
  have hsame : s.applyUpdate platform cur u = _ := moved_eq hu he htarget hs.tidy
  simp only [hd, if_true] at hsame
  rw [listing, children_moveInto ht (valid_path hpathe) hsource htarget', if_pos hat.isIn]
  cases hfind : (without source s.entries).find? (·.path = e.path) with
  | some x =>
    have hx := List.mem_of_find?_eq_some hfind
    have hpath : x.path = e.path := by simpa using List.find?_some hfind
    obtain ⟨hxs, hne⟩ := mem_without.mp hx
    have hxm : x ∈ without source (children t (pathOf cur)) := mem_without.mpr ⟨hs.mem hxs, hne⟩
    have hperm : (without target (without source (children t (pathOf cur))) ++ [e]).Perm
        (replace e (without source (children t (pathOf cur)))) :=
      (List.perm_append_singleton e _).trans (replace_perm hm.distinct hxm hpath hpathe).symm
    rw [(sorts platform).sort_congr (hm.replace hat).untied hperm,
      differs_iff hs.tidy.distinct hxs hpath]
    rw [arrived, hfind] at hsame
    by_cases hequal : _mapShallowEquals platform x e = true
    · simp only [hequal, if_true] at hsame
      by_cases hshown : some source ∈ s.paths
      · simp only [hshown, decide_true, moved, if_true] at hsame
        rw [hsame]
        by_cases hcursor : s.nextCursor = none
        · have hnext := (sorts platform).sort_congr hm.untied (hleft hcursor)
          constructor
          · rintro ⟨hwhole, -⟩ - -
            have hentries : sortFileDirectoryEntries platform (without source s.entries) =
                sortFileDirectoryEntries platform
                  (replace e (without source (children t (pathOf cur)))) :=
              congrArg entries (hwhole hcursor)
            have hmem : x ∈ replace e (without source (children t (pathOf cur))) := by
              have hsorted : x ∈ sortFileDirectoryEntries platform (without source s.entries) :=
                mem_sort.mpr hx
              rw [hentries] at hsorted
              exact mem_sort.mp hsorted
            exact Listings.eq_of_key (hm.replace hat).distinct hmem (mem_replace hxm hpath) hpath
          · intro h
            obtain rfl := h (.inl hcursor) hequal
            refine right_sorted hs.stale fun _ => hnext.trans ?_
            rw [replace_self hm.distinct hxm]
        · refine iff_of_true (right_sorted hs.stale fun h => absurd h hcursor) fun h => ?_
          exact absurd h (not_or.mpr ⟨hcursor, not_not_intro hshown⟩)
      · simp only [hshown, decide_false, moved, Bool.false_eq_true, if_false] at hsame
        rw [hsame]
        have hright := (hs.right_without ht hshown).replace_iff hs.stale hm hat hxs hxm hpath
        exact hright.trans ⟨fun h _ _ => h, fun h => h (.inr hshown) hequal⟩
    · simp only [hequal, moved, Bool.false_eq_true, if_false, if_true] at hsame
      rw [hsame]
      refine iff_of_true (right_sorted hs.stale fun h => ?_) fun _ h => absurd h hequal
      exact (sorts platform).sort_congr (hm.replace hat).untied ((hleft h).map _)
  | none =>
    have hnew : e.path ∉ (without source s.entries).map Entry.path := by
      intro hmem
      obtain ⟨x, hx, hpath⟩ := List.mem_map.mp hmem
      exact absurd hpath (by simpa using List.find?_eq_none.mp hfind x hx)
    have hshown : e.path ∉ s.paths := by
      intro hmem
      obtain ⟨x, hx, hpath⟩ := List.mem_map.mp hmem
      have hne : x.path ≠ some source := fun h =>
        hc.2.2.2.1 (Option.some.inj (h.symm.trans (hpath.trans hpathe)) ▸ List.prefix_refl _)
      exact hnew (hpath ▸ List.mem_map_of_mem (mem_without.mpr ⟨hx, hne⟩))
    rw [arrived, hfind] at hsame
    refine iff_of_true ?_ fun _ => differs_of_not_mem hshown
    by_cases hcursor : s.nextCursor.isNone = true
    · simp only [hcursor, moved, if_true] at hsame
      rw [hsame]
      have hperm := hleft (Option.isNone_iff_eq_none.mp hcursor)
      have hnotin : e.path ∉ (without source (children t (pathOf cur))).map Entry.path :=
        fun h => hnew ((hperm.map _).mem_iff.mpr h)
      rw [without_self (hpathe ▸ hnotin)]
      exact right_sorted hs.stale fun _ =>
        (sorts platform).sort_congr (hm.append hat hnotin).untied (hperm.append_right [e])
    · simp only [hcursor, Bool.false_eq_true, if_false] at hsame
      rw [hsame]
      exact ⟨fun h => absurd (Option.isNone_iff_eq_none.mpr h) hcursor, fun _ => .inl rfl⟩

end Moves

lemma right_moved (ht : IsTree t) (hc : (Change.moved source target e).Possible t)
    (hu : Describes u (.moved source target e)) (hs : Fresh platform t (pathOf cur) s) :
    Right (listing platform (moveInto source target e t) (pathOf cur)) s
      (s.applyUpdate platform cur u) ↔
      Noticed platform t (pathOf cur) u s (.moved source target e) := by
  obtain ⟨d, name, he⟩ := hc.2.1
  have htarget : target = d ++ [name] := Option.some.inj (hc.2.2.1.symm.trans he.1)
  by_cases hsource : source <+: pathOf cur
  · exact right_moved_source ht hc hu hs he htarget hsource
  · by_cases htarget' : target <+: pathOf cur
    · obtain ⟨rest, hrest⟩ := htarget'
      exact right_moved_target ht hc hu hs he htarget hrest.symm
    · have hnoticed : Noticed platform t (pathOf cur) u s (.moved source target e) ↔
          (s.nextCursor = none ∨ some source ∉ s.paths → Differs platform s e) :=
        ⟨fun h => h.2.2, fun h => ⟨fun h' => absurd h' hsource,
          fun rest _ hrest => absurd (hrest ▸ List.prefix_append _ _) htarget', h⟩⟩
      rw [hnoticed]
      by_cases hd : d = pathOf cur
      · exact right_moved_into ht hc hu hs he htarget hsource htarget' hd
      · exact iff_of_true (right_moved_away ht hc hu hs he htarget hsource htarget' hd)
          fun _ => differs_of_not_mem (hs.tidy.not_mem_of_ne he hd)

lemma follows_of_right (htwice : (s.applyUpdate platform cur u).applyUpdate platform cur u =
    s.applyUpdate platform cur u) : Follows platform t cur u s ↔
      Right (listing platform t (pathOf cur)) s (s.applyUpdate platform cur u) :=
  ⟨fun h => ⟨h.whole, h.part⟩, fun h => ⟨h.whole, h.part, htwice⟩⟩

lemma twice_described {c : Change} (hc : c.Possible t) (hu : Describes u c)
    (hs : Tidy (pathOf cur) s.entries) :
    (s.applyUpdate platform cur u).applyUpdate platform cur u = s.applyUpdate platform cur u := by
  cases c with
  | added e =>
    obtain ⟨⟨d, name, he⟩, -⟩ := hc
    exact twice_added hu he hs
  | removed p => exact twice_removed hu hs
  | updated e =>
    obtain ⟨⟨d, name, he⟩, -⟩ := hc
    exact twice_updated hu he hs
  | moved source target e =>
    obtain ⟨-, ⟨d, name, he⟩, hpath, hst, -⟩ := hc
    refine twice_moved hu he (Option.some.inj (hpath.symm.trans he.1)) ?_ hs
    rintro rfl
    exact hst (List.prefix_refl _)

/-- **The view follows the folder**, exactly if the update is not passed over. -/
lemma follows_iff {c : Change} (ht : IsTree t) (hc : c.Possible t) (hu : Describes u c)
    (hs : Loaded platform t (pathOf cur) s) :
    Follows platform (c.after t) cur u s ↔
      s.isStale = true ∨ Noticed platform t (pathOf cur) u s c := by
  rw [follows_of_right (twice_described hc hu hs.tidy)]
  cases hstale : s.isStale with
  | true =>
    refine iff_of_true ⟨fun hcursor => ?_, fun _ => .inl (stale_applyUpdate hstale)⟩ (.inl rfl)
    exact absurd ((hs.whole hcursor).1.symm.trans hstale) Bool.false_ne_true
  | false =>
    have hfresh := hs.fresh hstale
    rw [or_iff_right Bool.false_ne_true]
    cases c with
    | added e => exact iff_of_true (right_added ht hc hu hfresh) trivial
    | removed p => exact right_removed ht hu hfresh
    | updated e => exact right_updated ht hc hu hfresh
    | moved source target e => exact right_moved ht hc hu hfresh

/-! ### Runs of the view -/

/-- What can happen to the view. -/
inductive Op
  | update (currentRelativeDirectory : String) (u : FileDirectoryUpdate)
  | page (received : List Entry) (append : Bool) (nextCursor generation : Option String)

variable (platform) in
def step (s : FileDirectoryState) : Op → Option FileDirectoryState
  | .update dir u => some (s.applyUpdate platform dir u)
  | .page received append nextCursor generation =>
    some (s.withPage platform received append nextCursor generation)

/-- No two entries have the same path. -/
def Distinct (s : FileDirectoryState) : Prop := (s.entries.filterMap Entry.path).Nodup

variable (platform) in
/-- The page passes for what is shown; or it has no path twice and, where it comes after what is
shown, none that is there already. -/
def Fits (s : FileDirectoryState) : Op → Prop
  | .update _ _ => True
  | .page received append nextCursor generation =>
    (s.isStale = false ∧ s.nextCursor = nextCursor ∧ s.generation = generation ∧
      _entryListsShallowEquals platform s.entries
        (mergeBrowseEntries s.entries received append) = true) ∨
    (received.filterMap Entry.path).Nodup ∧ (append = true →
      List.Disjoint (s.entries.filterMap Entry.path) (received.filterMap Entry.path))

lemma distinct_withSorted (h : (l.filterMap Entry.path).Nodup) :
    Distinct (s._withSortedEntries platform l) :=
  (((sorts platform).perm l).filterMap Entry.path).nodup_iff.mpr h

lemma nodup_eraseIdx (h : (l.filterMap Entry.path).Nodup) (i : ℕ) :
    ((l.eraseIdx i).filterMap Entry.path).Nodup :=
  h.sublist ((List.eraseIdx_sublist l i).filterMap _)

lemma nodup_set {i : ℕ} (h : (l.filterMap Entry.path).Nodup) (hget : l[i]? = some x)
    (hpath : x.path = e.path) : ((l.set i e).filterMap Entry.path).Nodup := by
  have hsame : (l.set i e).map Entry.path = l.map Entry.path := by
    obtain ⟨hi, hx⟩ := List.getElem?_eq_some_iff.mp hget
    rw [List.map_set, ← hpath, ← hx, ← List.getElem_map Entry.path, List.set_getElem_self]
    simpa using hi
  have hfilter (l : List Entry) : l.filterMap Entry.path = (l.map Entry.path).filterMap id := by
    rw [List.filterMap_map]
    rfl
  rw [hfilter, hsame, ← hfilter]
  exact h

lemma nodup_append (h : (l.filterMap Entry.path).Nodup) (hnone : _entryIndex text l = none)
    (he : e.path = some (pathOf text)) : ((l ++ [e]).filterMap Entry.path).Nodup := by
  rw [entryIndex_eq, Listings.findIdx_eq_none_iff] at hnone
  rw [List.filterMap_append, List.filterMap_cons_some he]
  refine h.append (List.nodup_singleton _) fun p hp hp' => ?_
  obtain ⟨x, hx, hpath⟩ := List.mem_filterMap.mp hp
  exact hnone x hx (List.mem_singleton.mp hp' ▸ hpath)

lemma distinct_replaceAt {i : ℕ} (h : Distinct s) (hi : _entryIndex text s.entries = some i)
    (he : e.path = some (pathOf text)) : Distinct (s._replaceAt platform i e) := by
  rw [entryIndex_eq] at hi
  obtain ⟨x, hget, -, hpath⟩ := Listings.exists_of_findIdx hi
  simp only [_replaceAt, hget]
  split_ifs
  · exact h
  · exact distinct_withSorted (nodup_set h hget (hpath.trans he.symm))

lemma path_of_entryRelativePath (h : _entryRelativePath e = some text) :
    e.path = some (pathOf text) := by
  rw [entryRelativePath_eq] at h
  obtain ⟨q, hq, rfl⟩ := Option.map_eq_some_iff.mp h
  rw [hq, pathOf_joined (valid_path hq)]

lemma distinct_addOrMarkStale (h : Distinct s) (parent : Option String) (entry : Option Entry) :
    Distinct (s._addOrMarkStale platform cur parent entry) := by
  unfold _addOrMarkStale
  split
  · exact h
  · split
    · exact h
    · split
      · exact h
      · next path hpath =>
        have he := path_of_entryRelativePath hpath
        split
        · next i hi => exact distinct_replaceAt h hi he
        · next hnone =>
          split
          · exact h
          · exact distinct_withSorted (nodup_append h hnone he)

lemma distinct_replaceIfVisible (h : Distinct s) (parent : Option String) (entry : Option Entry) :
    Distinct (s._replaceIfVisible platform cur parent entry) := by
  unfold _replaceIfVisible
  split
  · exact h
  · split
    · exact h
    · split
      · exact h
      · next path hpath =>
        split
        · next i hi => exact distinct_replaceAt h hi (path_of_entryRelativePath hpath)
        · exact h

lemma distinct_removeIfVisible (h : Distinct s) (parent path : Option String) :
    Distinct (s._removeIfVisible cur parent path) := by
  unfold _removeIfVisible
  split
  · exact h
  · split
    · exact h
    · split
      · exact h
      · exact nodup_eraseIdx h _

lemma nodup_takeOut (h : Distinct s) (source : Option String) :
    ((s.takeOut source).1.filterMap Entry.path).Nodup := by
  unfold takeOut
  split
  · exact nodup_eraseIdx h _
  · exact h

lemma distinct_moved (h : Distinct s) (hl : (l.filterMap Entry.path).Nodup) (changed : Bool) :
    Distinct (s.moved platform l changed) := by
  unfold moved
  split
  · exact distinct_withSorted hl
  · exact h

lemma distinct_putIn (h : Distinct s) (hl : (l.filterMap Entry.path).Nodup) (changed : Bool)
    (e : Entry) : Distinct (s.putIn platform l changed e) := by
  unfold putIn
  split
  · exact h
  · next path hpath =>
    have he := path_of_entryRelativePath hpath
    split
    · next i hi =>
      split
      · next x hget =>
        split
        · exact distinct_moved h hl changed
        · rw [entryIndex_eq] at hi
          obtain ⟨y, hget', -, hypath⟩ := Listings.exists_of_findIdx hi
          obtain rfl := Option.some.inj (hget'.symm.trans hget)
          exact distinct_moved h (nodup_set hl hget (hypath.trans he.symm)) true
      · exact h
    · next hnone =>
      split
      · exact distinct_moved h (nodup_append hl hnone he) true
      · split
        · exact hl
        · exact h

lemma distinct_moveIfRelevant (h : Distinct s) (sourceParent source destination : Option String)
    (entry : Option Entry) :
    Distinct (s._moveIfRelevant platform cur sourceParent source destination entry) := by
  have hl := nodup_takeOut h source
  simp only [_moveIfRelevant]
  split
  · exact h
  · split
    · exact distinct_moved h hl _
    · exact distinct_putIn h hl _ _

/-- No update shows an entry twice. -/
lemma distinct_applyUpdate (h : Distinct s) : Distinct (s.applyUpdate platform cur u) := by
  unfold applyUpdate
  split
  · exact distinct_addOrMarkStale h _ _
  · exact distinct_replaceIfVisible h _ _
  · exact distinct_removeIfVisible h _ _
  · exact distinct_moveIfRelevant h _ _ _ _

variable (platform) in
/-- A page shows no entry twice, exactly if it fits. -/
lemma distinct_withPage_iff (h : Distinct s) (received : List Entry) (append : Bool)
    (nextCursor generation : Option String) :
    Distinct (s.withPage platform received append nextCursor generation) ↔
      Fits platform s (.page received append nextCursor generation) := by
  unfold withPage Fits
  simp only [Bool.not_eq_true']
  split
  · next hsame => exact iff_of_true h (.inl hsame)
  · next hother =>
    rw [or_iff_right hother, Distinct, mergeBrowseEntries]
    cases append with
    | true =>
      rw [if_pos rfl, List.filterMap_append, List.nodup_append']
      exact ⟨fun hall => ⟨hall.2.1, fun _ => hall.2.2⟩, fun hall => ⟨h, hall.1, hall.2 rfl⟩⟩
    | false =>
      rw [if_neg Bool.false_ne_true]
      exact ⟨fun hn => ⟨hn, fun hfalse => absurd hfalse Bool.false_ne_true⟩, fun hn => hn.1⟩

variable (platform) in
lemma exists_run (s : FileDirectoryState) (ops : List Op) :
    ∃ s', Machine.run (step platform) s ops = some s' := by
  induction ops generalizing s with
  | nil => exact ⟨s, rfl⟩
  | cons op ops ih =>
    cases op with
    | update dir u => exact ih (s.applyUpdate platform dir u)
    | page received append nextCursor generation =>
      exact ih (s.withPage platform received append nextCursor generation)

/-- **No entry is shown twice**, exactly if all pages fit. -/
lemma distinct_iff_fits (ops : List Op) :
    Throughout (step platform) Distinct .empty ops ↔ Meets (step platform) (Fits platform) .empty ops := by
  obtain ⟨s', hrun⟩ := exists_run platform .empty ops
  refine Machine.throughout_iff_meets (I := Distinct) (fun h => h) (fun {s op s'} h hstep => ?_)
    List.nodup_nil hrun
  cases op with
  | update dir u =>
    obtain rfl := Option.some.inj hstep
    exact ⟨fun _ => distinct_applyUpdate h, fun _ => trivial⟩
  | page received append nextCursor generation =>
    obtain rfl := Option.some.inj hstep
    have hiff := distinct_withPage_iff platform h received append nextCursor generation
    exact ⟨hiff.mpr, hiff.mp⟩

/-- A sort that is stable, where no two objects are identical. -/
def stable : Platform where
  sort l := l.mergeSort fun x y => (compareEntries x y).isLE
  perm l := List.mergeSort_perm l _
  sorted l := by
    refine List.pairwise_mergeSort (fun x y z hxy hyz => ?_) (fun x y => ?_) l
    · exact Std.TransCmp.isLE_trans hxy hyz
    · have hswap : compareEntries y x = (compareEntries x y).swap := Std.OrientedCmp.eq_swap
      rw [hswap]
      cases compareEntries x y <;> rfl
  identical _ _ := false
  eq_of_identical _ _ h := absurd h Bool.false_ne_true

/-- `reports/a.pdf`. -/
def report : Entry :=
  Finmap.insert "relativePath" (.str "reports/a.pdf")
    (Finmap.insert "name" (.str "a.pdf") ∅)

lemma report_isAt : report.IsAt ["reports".toList] "a.pdf".toList := by
  refine ⟨?_, ?_⟩
  · rw [Entry.path, report, read_insert]
    decide
  · rw [report, read_insert_of_ne (by decide), read_insert]
    rfl

end MouseKeeper.Mobile.DirectoryView
