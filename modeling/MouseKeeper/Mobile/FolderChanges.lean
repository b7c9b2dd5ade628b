import MouseKeeper.Mobile.FilePaths

/-!
A tree of files, the changes that can be made to it, and what a folder lists.

What is removed goes with all that is inside it, and what is moved takes that along. The children
of one folder before and after a change differ in no more than one or two entries, unless the
folder itself is inside what is removed or moved.
-/

namespace MouseKeeper.Mobile.DirectoryView

open Contracts (Json)

/-! ### Trees -/

def Entry.path (x : Entry) : Option Path :=
  match x.read "relativePath" with
  | .str text => some (pathOf text)
  | _ => none

/-- The entry is in the folder, under the name that it has. -/
def Entry.IsAt (x : Entry) (dir : Path) (name : List Char) : Prop :=
  x.path = some (dir ++ [name]) ∧ x.read "name" = .str (String.ofList name)

def Entry.IsNamed (x : Entry) : Prop := ∃ dir name, x.IsAt dir name

structure IsTree (t : List Entry) : Prop where
  named : ∀ x ∈ t, x.IsNamed
  distinct : (t.map Entry.path).Nodup

def Entry.isIn (dir : Path) (x : Entry) : Bool := x.path.any fun p => p ≠ [] ∧ p.dropLast = dir

/-- The entry is at the path, or inside what is there. -/
def Entry.under (p : Path) (x : Entry) : Bool := x.path.any fun q => p <+: q

def children (t : List Entry) (dir : Path) : List Entry := t.filter (Entry.isIn dir)

/-- The folder as it is listed. -/
def listing (platform : Platform) (t : List Entry) (dir : Path) : List Entry :=
  sortFileDirectoryEntries platform (children t dir)

/-! ### Changes -/

inductive Change
  | added (entry : Entry)
  | removed (path : Path)
  | updated (entry : Entry)
  | moved (source target : Path) (entry : Entry)

/-- An entry that goes along with what is moved. -/
def relocate (source target : Path) (x : Entry) : Entry :=
  match x.path with
  | some p => x.insert "relativePath" (.str (Path.joined (target ++ p.drop source.length)))
  | none => x

/-- Something that is replaced by a move has nothing inside. -/
def Change.Possible (t : List Entry) : Change → Prop
  | .added entry => entry.IsNamed ∧ entry.path ∉ t.map Entry.path
  | .removed path => some path ∈ t.map Entry.path
  | .updated entry => entry.IsNamed ∧ entry.path ∈ t.map Entry.path
  | .moved source target entry => some source ∈ t.map Entry.path ∧ entry.IsNamed ∧
      entry.path = some target ∧ ¬source <+: target ∧ ¬target <+: source ∧
      ∀ x ∈ t, x.under target = true → x.path = some target

def replace (e : Entry) (l : List Entry) : List Entry :=
  l.map fun x => if x.path = e.path then e else x

/-- All but the entry at the path. -/
def without (p : Path) (l : List Entry) : List Entry := l.filter (·.path ≠ some p)

/-- What is moved goes first from its place, with all that is inside it. -/
def moveInto (source target : Path) (entry : Entry) (t : List Entry) : List Entry :=
  without target (t.filter (!·.under source)) ++
    entry :: (without source (t.filter (·.under source))).map (relocate source target)

def Change.after (t : List Entry) : Change → List Entry
  | .added entry => t ++ [entry]
  | .removed path => t.filter (!·.under path)
  | .updated entry => replace entry t
  | .moved source target entry => moveInto source target entry t

/-- The field is missing, or it is a text of the path. -/
def Names (field : Option String) (p : Path) : Prop := ∀ text ∈ field, pathOf text = p

/-- The update tells of the change, and every field of it that is read agrees with that. -/
def Describes (u : FileDirectoryUpdate) : Change → Prop
  | .added entry => u.kind = .added ∧ u.entry = some entry ∧
      ∀ p ∈ entry.path, Names u.parentRelativePath p.dropLast
  | .removed path => u.kind = .removed ∧ Names u.parentRelativePath path.dropLast ∧
      Names u.previousRelativePath path ∧ Names u.relativePath path ∧
      (∀ entry ∈ u.entry, entry.path = some path) ∧
      (u.sourcePath.isSome = true ∨ u.entry.isSome = true)
  | .updated entry => u.kind = .updated ∧ u.entry = some entry ∧
      ∀ p ∈ entry.path, Names u.parentRelativePath p.dropLast
  | .moved source target entry => u.kind = .moved ∧ u.entry = some entry ∧
      Names u.parentRelativePath target.dropLast ∧ u.sourcePath.map pathOf = some source

/-! ### Entries and their paths -/

variable {x y e : Entry} {dir p q source target : Path} {name : List Char} {t l : List Entry}

lemma valid_path (h : x.path = some p) : p.Valid := by
  unfold Entry.path at h
  split at h
  · exact Option.some.inj h ▸ valid_pathOf _
  · exact absurd h (Option.some_ne_none _).symm

lemma entryRelativePath_eq (x : Entry) : _entryRelativePath x = x.path.map Path.joined := by
  unfold _entryRelativePath Entry.path
  cases x.read "relativePath" with
  | str path => rfl
  | _ => rfl

lemma isIn_iff : x.isIn dir = true ↔ ∃ name, x.path = some (dir ++ [name]) := by
  unfold Entry.isIn
  constructor
  · intro h
    cases hp : x.path with
    | none => simp [hp] at h
    | some p =>
      obtain ⟨hne, hdrop⟩ : p ≠ [] ∧ p.dropLast = dir := by simpa [hp] using h
      exact ⟨p.getLast hne, by rw [← hdrop, List.dropLast_append_getLast]⟩
  · rintro ⟨name, h⟩
    simp [h]

lemma under_iff : x.under p = true ↔ ∃ q, x.path = some q ∧ p <+: q := by
  unfold Entry.under
  cases x.path with
  | none => simp
  | some q => simp

lemma isIn_of_path (h : x.path = y.path) : x.isIn dir = y.isIn dir := by
  rw [Entry.isIn, Entry.isIn, h]

lemma Entry.IsAt.isIn (h : x.IsAt dir name) : x.isIn dir = true := isIn_iff.mpr ⟨name, h.1⟩

lemma Entry.IsAt.dir_eq {dir' : Path} (h : x.IsAt dir name) (hx : x.isIn dir' = true) :
    dir = dir' := by
  obtain ⟨name', h'⟩ := isIn_iff.mp hx
  exact (List.append_inj' (Option.some.inj (h.1.symm.trans h')) rfl).1

lemma Entry.IsNamed.isAt (h : x.IsNamed) (hx : x.isIn dir = true) : ∃ name, x.IsAt dir name := by
  obtain ⟨dir', name, hat⟩ := h
  exact ⟨name, hat.dir_eq hx ▸ hat⟩

lemma mem_children : x ∈ children t dir ↔ x ∈ t ∧ x.isIn dir = true := List.mem_filter

lemma IsTree.children (h : IsTree t) (dir : Path) : IsTree (children t dir) :=
  ⟨fun x hx => h.named x (List.mem_of_mem_filter hx),
    h.distinct.sublist (List.filter_sublist.map _)⟩

/-- Entries of one folder are not tied. -/
lemma untied (hn : (l.map Entry.path).Nodup) (h : ∀ x ∈ l, ∃ name, x.IsAt dir name) :
    Listings.Untied NotAfter l := by
  intro x hx y hy hxy hyx
  obtain ⟨name, hpath, hname⟩ := h x hx
  obtain ⟨name', hpath', hname'⟩ := h y hy
  have hsame : name = name' := by
    have hnames := nameOf_eq_of_notAfter hxy hyx
    rw [nameOf, hname, nameOf, hname'] at hnames
    exact String.ofList_injective hnames
  exact Listings.eq_of_key hn hx hy (by rw [hpath, hpath', hsame])

lemma IsTree.untied (h : IsTree t) (dir : Path) :
    Listings.Untied NotAfter (DirectoryView.children t dir) :=
  DirectoryView.untied (h.children dir).distinct fun x hx =>
    (h.named x (mem_children.mp hx).1).isAt (mem_children.mp hx).2

/-! ### Going along -/

@[simp] lemma read_insert (x : Entry) (key : String) (v : Json) :
    Entry.read (x.insert key v) key = v := by
  rw [Entry.read, Finmap.lookup_insert]
  rfl

lemma read_insert_of_ne {key k : String} (h : k ≠ key) (x : Entry) (v : Json) :
    Entry.read (x.insert key v) k = x.read k := by
  rw [Entry.read, Finmap.lookup_insert_of_ne _ h]
  rfl

lemma Path.Valid.append (hp : p.Valid) (hq : q.Valid) : Path.Valid (p ++ q) := by
  intro x hx
  exact (List.mem_append.mp hx).elim (hp x) (hq x)

lemma relocate_isAt {rest : Path} (htarget : target.Valid) (h : x.IsAt (source ++ rest) name) :
    (relocate source target x).IsAt (target ++ rest) name := by
  obtain ⟨hpath, hname⟩ := h
  have hdrop : (source ++ rest ++ [name]).drop source.length = rest ++ [name] := by
    rw [List.append_assoc, List.drop_left]
  have hvalid : Path.Valid (target ++ (rest ++ [name])) := by
    refine htarget.append fun y hy => valid_path hpath y ?_
    rw [List.append_assoc]
    exact List.mem_append_right source hy
  have hrelocate : relocate source target x =
      x.insert "relativePath" (.str (Path.joined (target ++ (rest ++ [name])))) := by
    rw [relocate, hpath]
    exact congrArg (fun q => x.insert "relativePath" (.str (Path.joined (target ++ q)))) hdrop
  rw [hrelocate]
  refine ⟨?_, ?_⟩
  · rw [Entry.path, read_insert, List.append_assoc]
    exact congrArg some (pathOf_joined hvalid)
  · rw [read_insert_of_ne (by decide), hname]

/-- What is inside the source, and not the source itself. -/
lemma exists_rest (h : x.IsNamed) (hunder : x.under source = true) (hne : x.path ≠ some source) :
    ∃ rest name, x.IsAt (source ++ rest) name := by
  obtain ⟨dir, name, hat⟩ := h
  obtain ⟨q, hq, hprefix⟩ := under_iff.mp hunder
  cases hat.1.symm.trans hq
  rcases List.prefix_concat_iff.mp hprefix with heq | ⟨rest, hrest⟩
  · exact absurd (heq ▸ hat.1) hne
  · exact ⟨rest, name, hrest ▸ hat⟩

lemma mem_without : x ∈ without p l ↔ x ∈ l ∧ x.path ≠ some p := by
  simp [without]

/-- What goes along is inside the source. -/
lemma along (ht : IsTree t) (hx : x ∈ without source (t.filter (·.under source))) :
    ∃ rest name, x.IsAt (source ++ rest) name := by
  obtain ⟨hx, hne⟩ := mem_without.mp hx
  obtain ⟨hx, hunder⟩ := List.mem_filter.mp hx
  exact exists_rest (ht.named x hx) hunder hne

/-! ### Trees after changes -/

lemma distinct_without (h : (l.map Entry.path).Nodup) : ((without p l).map Entry.path).Nodup :=
  h.sublist (List.filter_sublist.map _)

lemma isTree_moveInto (ht : IsTree t) (hc : (Change.moved source target e).Possible t) :
    IsTree (moveInto source target e t) := by
  obtain ⟨-, hnamed, hpath, -, -, hinside⟩ := hc
  have htarget : target.Valid := valid_path hpath
  refine ⟨fun x hx => ?_, ?_⟩
  · rcases List.mem_append.mp hx with hx | hx
    · exact ht.named x (List.mem_of_mem_filter (mem_without.mp hx).1)
    · rcases List.mem_cons.mp hx with rfl | hx
      · exact hnamed
      · obtain ⟨y, hy, rfl⟩ := List.mem_map.mp hx
        obtain ⟨rest, name, hat⟩ := along ht hy
        exact ⟨_, _, relocate_isAt htarget hat⟩
  · have hmoved : ∀ x ∈ without source (t.filter (·.under source)), ∃ rest name,
        x.path = some (source ++ rest ++ [name]) ∧
          (relocate source target x).path = some (target ++ rest ++ [name]) := fun x hx =>
      have ⟨rest, name, hat⟩ := along ht hx
      ⟨rest, name, hat.1, (relocate_isAt htarget hat).1⟩
    have hfilter (p : Entry → Bool) : ((t.filter p).map Entry.path).Nodup :=
      ht.distinct.sublist (List.filter_sublist.map _)
    rw [moveInto, List.map_append, List.map_cons, List.map_map]
    refine List.Nodup.append (distinct_without (hfilter _)) (List.nodup_cons.mpr ⟨?_, ?_⟩) ?_
    · rw [hpath]
      intro hmem
      obtain ⟨x, hx, hxpath⟩ := List.mem_map.mp hmem
      obtain ⟨rest, name, -, hrelocated⟩ := hmoved x hx
      have hlength := congrArg List.length (Option.some.inj (hrelocated.symm.trans hxpath))
      simp at hlength
    · refine (List.Nodup.of_map _ (distinct_without (hfilter _))).map_on fun x hx y hy hxy => ?_
      obtain ⟨rest, name, hxpath, hxr⟩ := hmoved x hx
      obtain ⟨rest', name', hypath, hyr⟩ := hmoved y hy
      have hsame := Option.some.inj (hxr.symm.trans (hxy.trans hyr))
      rw [List.append_assoc, List.append_assoc] at hsame
      have htail := List.append_cancel_left hsame
      refine Listings.eq_of_key (distinct_without (hfilter _)) hx hy ?_
      rw [hxpath, hypath, List.append_assoc, List.append_assoc, htail]
    · intro q hq hq'
      obtain ⟨x, hx, rfl⟩ := List.mem_map.mp hq
      obtain ⟨hx, hne⟩ := mem_without.mp hx
      rcases List.mem_cons.mp hq' with hq' | hq'
      · exact hne (hq'.trans hpath)
      · obtain ⟨y, hy, hypath⟩ := List.mem_map.mp hq'
        obtain ⟨rest, name, -, hrelocated⟩ := hmoved y hy
        have hprefix : target <+: target ++ rest ++ [name] := by
          rw [List.append_assoc]
          exact List.prefix_append _ _
        exact hne (hinside x (List.mem_of_mem_filter hx)
          (under_iff.mpr ⟨_, hypath.symm.trans hrelocated, hprefix⟩))

/-- **What is left by a change is a tree.** -/
theorem isTree_after (ht : IsTree t) {c : Change} (hc : c.Possible t) : IsTree (c.after t) := by
  cases c with
  | added e =>
    obtain ⟨hnamed, hnew⟩ := hc
    refine ⟨fun x hx => ?_, ?_⟩
    · rcases List.mem_append.mp hx with hx | hx
      · exact ht.named x hx
      · exact List.mem_singleton.mp hx ▸ hnamed
    · rw [Change.after, List.map_append]
      refine ht.distinct.append (List.nodup_singleton _) fun p hp hp' => hnew ?_
      exact List.mem_singleton.mp hp' ▸ hp
  | removed p =>
    exact ⟨fun x hx => ht.named x (List.mem_of_mem_filter hx),
      ht.distinct.sublist (List.filter_sublist.map _)⟩
  | updated e =>
    refine ⟨fun x hx => ?_, ?_⟩
    · obtain ⟨y, hy, rfl⟩ := List.mem_map.mp hx
      split_ifs
      · exact hc.1
      · exact ht.named y hy
    · rw [Change.after, replace, Listings.map_key_replace rfl]
      exact ht.distinct
  | moved source target e => exact isTree_moveInto ht hc

/-! ### Folders after changes -/

lemma children_append (t l : List Entry) (dir : Path) :
    children (t ++ l) dir = children t dir ++ children l dir := List.filter_append ..

lemma children_eq_nil (h : ∀ x ∈ t, x.isIn dir = false) : children t dir = [] :=
  List.filter_eq_nil_iff.mpr fun x hx => Bool.eq_false_iff.mp (h x hx)

lemma children_replace (e : Entry) (t : List Entry) (dir : Path) :
    children (replace e t) dir = replace e (children t dir) := by
  rw [children, replace, List.filter_map]
  refine congrArg _ (List.filter_congr fun x _ => ?_)
  rw [Function.comp_apply]
  split_ifs with h
  · exact isIn_of_path h.symm
  · rfl

lemma replace_of_not_mem (h : ∀ x ∈ l, x.path ≠ e.path) : replace e l = l :=
  (List.map_congr_left fun x hx => if_neg (h x hx)).trans (List.map_id l)

lemma without_of_not_mem (h : ∀ x ∈ l, x.path ≠ some p) : without p l = l :=
  List.filter_eq_self.mpr fun x hx => decide_eq_true (h x hx)

/-- The child of a folder that is inside of something. -/
lemma under_of_isIn (hx : x.isIn dir = true) :
    x.under p = true ↔ p <+: dir ∨ x.path = some p := by
  obtain ⟨name, hpath⟩ := isIn_iff.mp hx
  rw [under_iff, hpath]
  constructor
  · rintro ⟨q, hq, hprefix⟩
    cases hq
    rcases List.prefix_concat_iff.mp hprefix with rfl | h
    · exact .inr rfl
    · exact .inl h
  · rintro (h | h)
    · exact ⟨_, rfl, h.trans (List.prefix_append _ _)⟩
    · exact ⟨_, rfl, Option.some.inj h ▸ List.prefix_refl _⟩

lemma children_filter_under (hp : ¬p <+: dir) :
    children (t.filter (!·.under p)) dir = without p (children t dir) := by
  rw [children, children, without, List.filter_filter, List.filter_filter]
  refine List.filter_congr fun x _ => ?_
  cases hx : x.isIn dir with
  | false => simp
  | true =>
    have hunder := under_of_isIn (p := p) hx
    by_cases h : x.path = some p
    · simp [h, hunder.mpr (.inr h)]
    · have hnot : x.under p = false :=
        Bool.eq_false_iff.mpr fun hu => (hunder.mp hu).elim hp h
      simp [h, hnot]

lemma children_filter_inside (hp : p <+: dir) : children (t.filter (!·.under p)) dir = [] := by
  refine children_eq_nil fun x hx => Bool.eq_false_iff.mpr fun hin => ?_
  have hnot := (List.mem_filter.mp hx).2
  rw [(under_of_isIn hin).mpr (.inl hp)] at hnot
  cases hnot

lemma children_without (p : Path) (t : List Entry) (dir : Path) :
    children (without p t) dir = without p (children t dir) := List.filter_comm ..

/-- What goes along is not in a folder that is not inside the target. -/
lemma relocate_isIn (ht : IsTree t) (htarget : target.Valid)
    (hx : x ∈ without source (t.filter (·.under source)))
    (hin : (relocate source target x).isIn dir = true) : target <+: dir := by
  obtain ⟨rest, name, hat⟩ := along ht hx
  exact (relocate_isAt htarget hat).dir_eq hin ▸ List.prefix_append _ _

lemma children_along (ht : IsTree t) (htarget : target.Valid) (h : ¬target <+: dir) :
    children ((without source (t.filter (·.under source))).map (relocate source target)) dir = [] := by
  refine children_eq_nil fun y hy => Bool.eq_false_iff.mpr fun hin => h ?_
  obtain ⟨x, hx, rfl⟩ := List.mem_map.mp hy
  exact relocate_isIn ht htarget hx hin

lemma children_cons (e : Entry) (t : List Entry) (dir : Path) :
    children (e :: t) dir = (if e.isIn dir = true then [e] else []) ++ children t dir := by
  rw [children, List.filter_cons]
  split_ifs <;> rfl

/-- A folder that is neither in what is moved nor where it goes. -/
lemma children_moveInto (ht : IsTree t) (htarget : target.Valid) (hs : ¬source <+: dir)
    (h : ¬target <+: dir) : children (moveInto source target e t) dir =
      without target (without source (children t dir)) ++ if e.isIn dir = true then [e] else [] := by
  rw [moveInto, children_append, children_without, children_filter_under hs, children_cons,
    children_along ht htarget h, List.append_nil]

/-- Nothing is inside of both. -/
lemma incomparable (hst : ¬source <+: target) (hts : ¬target <+: source) (hs : source <+: dir)
    (ht : target <+: dir) : False := by
  rcases List.prefix_or_prefix_of_prefix hs ht with h | h
  · exact hst h
  · exact hts h

/-- A folder that is moved away. -/
lemma children_source (ht : IsTree t) (hc : (Change.moved source target e).Possible t)
    (hs : source <+: dir) : children (moveInto source target e t) dir = [] := by
  obtain ⟨-, hnamed, hpath, hst, hts, -⟩ := hc
  have htarget : ¬target <+: dir := fun h => incomparable hst hts hs h
  have he : e.isIn dir ≠ true := by
    intro hin
    obtain ⟨name, hname⟩ := isIn_iff.mp hin
    cases hpath.symm.trans hname
    exact hst (hs.trans (List.prefix_append _ _))
  rw [moveInto, children_append, children_without, children_filter_inside hs, children_cons,
    if_neg he, children_along ht (valid_path hpath) htarget]
  rfl

/-- A folder that comes with what is moved was not there before. -/
lemma children_target (hc : (Change.moved source target e).Possible t) (h : target <+: dir) :
    children t dir = [] := by
  obtain ⟨-, -, -, -, -, hinside⟩ := hc
  refine children_eq_nil fun x hx => Bool.eq_false_iff.mpr fun hin => ?_
  obtain ⟨name, hname⟩ := isIn_iff.mp hin
  have htarget := hinside x hx ((under_of_isIn hin).mpr (.inl h))
  cases hname.symm.trans htarget
  have hlength := h.length_le
  rw [List.length_append, List.length_singleton] at hlength
  omega

/-- It has what was in the folder from which it comes. -/
lemma children_moveInto_eq_nil_iff (ht : IsTree t)
    (hc : (Change.moved source target e).Possible t) {rest : Path} :
    children (moveInto source target e t) (target ++ rest) = [] ↔
      children t (source ++ rest) = [] := by
  have hbefore := children_target hc (List.prefix_append target rest)
  obtain ⟨-, hnamed, hpath, hst, hts, -⟩ := hc
  have htarget : target.Valid := valid_path hpath
  have hs : ¬source <+: target ++ rest := fun h =>
    incomparable hst hts h (List.prefix_append target rest)
  have he : e.isIn (target ++ rest) ≠ true := by
    intro hin
    obtain ⟨name, hname⟩ := isIn_iff.mp hin
    have hlength := congrArg List.length (Option.some.inj (hpath.symm.trans hname))
    simp at hlength
  rw [moveInto, children_append, children_without, children_filter_under hs, hbefore,
    children_cons, if_neg he]
  change children _ _ = [] ↔ _
  constructor
  · intro hnil
    refine children_eq_nil fun x hx => Bool.eq_false_iff.mpr fun hin => ?_
    obtain ⟨name, hat⟩ := (ht.named x hx).isAt hin
    have hmem : relocate source target x ∈
        children ((without source (t.filter (·.under source))).map (relocate source target))
          (target ++ rest) := by
      refine mem_children.mpr ⟨List.mem_map_of_mem (mem_without.mpr ⟨List.mem_filter.mpr
        ⟨hx, (under_of_isIn hin).mpr (.inl (List.prefix_append _ _))⟩, ?_⟩), ?_⟩
      · intro hsame
        have hlength := congrArg List.length (Option.some.inj (hat.1.symm.trans hsame))
        simp at hlength
      · exact (relocate_isAt htarget hat).isIn
    rw [hnil] at hmem
    exact absurd hmem List.not_mem_nil
  · intro hnil
    refine children_eq_nil fun y hy => Bool.eq_false_iff.mpr fun hin => ?_
    obtain ⟨x, hx, rfl⟩ := List.mem_map.mp hy
    obtain ⟨rest', name, hat⟩ := along ht hx
    have hrest : rest' = rest := List.append_cancel_left ((relocate_isAt htarget hat).dir_eq hin)
    have hmem : x ∈ children t (source ++ rest) := mem_children.mpr
      ⟨List.mem_of_mem_filter (mem_without.mp hx).1, hrest ▸ hat.isIn⟩
    rw [hnil] at hmem
    exact absurd hmem List.not_mem_nil

end MouseKeeper.Mobile.DirectoryView
