import MouseKeeper.Chat.CachedSearch
import MouseKeeper.Desktop.SearchRuns
import MouseKeeper.FileEngine.Acceptance
import MouseKeeper.FileEngine.Reindex

/-!
The cached files that answer a search and the files that the desktop finds.

The cache looks for the query in the whole path and for the file below the directory; the desktop
looks for it in the name, and for the file in the directory itself or in the whole root. What the
two make of one file agrees except for the kinds of files that are listed here.
-/

namespace MouseKeeper.Chat.CachedSearch

open Posix FileEngine
open Contracts (FileBrowseRequest SearchScope createFileBrowseRequestSchema isExtension)
open Desktop.RemoteView (Indexed SearchRequest Lists ensureIndex isRemotelyBrowsableName lists_iff)
open Storage (CachedFile)

/-! ### What must hold -/

def searchScope : SearchScope → IndexedSearchScope
  | .currentDirectory => .currentDirectory
  | .managedRoot => .managedRoot

/-- The search that the desktop is asked for, from its first page on. -/
def searchRequest (b : FileBrowseRequest) (query : String) : SearchRequest :=
  ⟨b.relativeDirectory, query, searchScope b.searchScope, none, b.limit, b.extensions⟩

/-- The file stands below the root, no link on its way, and the index has a row of it. -/
structure OnDesktop (s : Sys) (lower : String → String) (g : PathGuard) (ix : FileIndex)
    (path : String) : Prop where
  file : ∃ p : Path, p ≠ [] ∧ path = p.text ∧ s.tree.isFile (g.root ++ p) = true
  row : ∃ size modified e, indexedSearchEntry path false size modified = some e ∧
    e.relativePath = path ∧ searchRow lower e ∈ ix.entries

/-- The cache takes the file for a match, wherever it lies. -/
structure CachedMatch (toLowerCase : String → String) (b : FileBrowseRequest)
    (query path : String) : Prop where
  query : (toLowerCase (Contracts.trim query)).toList <:+: (toLowerCase path).toList
  extension : b.extensions = [] ∨
    fileExtension toLowerCase path ∈ b.extensions.map toLowerCase

/-- The desktop takes the file for a match, wherever it lies: the query is long enough without its
blanks and stands in the name, the extension does not begin with the name, the name may be shown
and the file is none of the engine's own. -/
structure LiveMatch (lower : String → String) (b : FileBrowseRequest) (query path : String) :
    Prop where
  length : 2 ≤ (trim query).length ∧ (trim query).length ≤ 100
  query : (lower (trim query)).toList <:+: (lower (nameOf path)).toList
  extension : b.extensions = [] ∨ ∃ extension, extensionOf path = some extension ∧
    "." ++ extension ∈ b.extensions.map toAsciiLowercase
  shown : isRemotelyBrowsableName (nameOf path) = true
  notOwn : ∀ name ∈ splitSlash path.toList, name ≠ STATE_DIR.toList ∧ name ≠ TRASH_DIR.toList

/-- The two searches take the file alike. -/
structure Alike (toLowerCase lower : String → String) (b : FileBrowseRequest)
    (query path : String) : Prop where
  /-- What only the cache takes for a match does not lie in its scope. -/
  onlyCached : CachedMatch toLowerCase b query path → ¬ LiveMatch lower b query path →
    isPathInQueryScope path (normalizeQueryDirectory b.relativeDirectory) b.searchScope = false
  /-- What only the desktop takes for a match does not lie in the directory. -/
  onlyLive : LiveMatch lower b query path → ¬ CachedMatch toLowerCase b query path →
    b.searchScope = .currentDirectory ∧ folderOf path ≠ b.relativeDirectory
  /-- In a search of the whole root, a match lies below the directory that the request names. -/
  below : CachedMatch toLowerCase b query path → LiveMatch lower b query path →
    b.searchScope = .managedRoot → normalizeQueryDirectory b.relativeDirectory ≠ "" →
      path ≠ normalizeQueryDirectory b.relativeDirectory →
        (normalizeQueryDirectory b.relativeDirectory ++ "/").toList <+: path.toList
  /-- In a search of the root alone, a match lies in no other directory. -/
  top : CachedMatch toLowerCase b query path → LiveMatch lower b query path →
    b.searchScope = .currentDirectory → normalizeQueryDirectory b.relativeDirectory = "" →
      folderOf path = b.relativeDirectory
  /-- In a search of one directory, no match is the directory. -/
  itself : CachedMatch toLowerCase b query path → LiveMatch lower b query path →
    b.searchScope = .currentDirectory → normalizeQueryDirectory b.relativeDirectory ≠ "" →
      path ≠ normalizeQueryDirectory b.relativeDirectory
  /-- Where blanks end the name of the directory, no match lies in it or in that without them. -/
  trimmed : CachedMatch toLowerCase b query path → LiveMatch lower b query path →
    b.searchScope = .currentDirectory → normalizeQueryDirectory b.relativeDirectory ≠ "" →
      normalizeQueryDirectory b.relativeDirectory ≠ b.relativeDirectory →
        folderOf path ≠ b.relativeDirectory ∧
          folderOf path ≠ normalizeQueryDirectory b.relativeDirectory

/-! ### One file -/

variable {toLowerCase lower : String → String} {b : FileBrowseRequest} {query path : String}

/-- The file lies where the desktop looks: right in the directory, or anywhere in the root. -/
def InDirectory (b : FileBrowseRequest) (path : String) : Prop :=
  b.searchScope = .currentDirectory → folderOf path = b.relativeDirectory

lemma isMatch_iff (hq : b.query = some query) : isMatch toLowerCase b path = true ↔
    isPathInQueryScope path (normalizeQueryDirectory b.relativeDirectory) b.searchScope = true ∧
      CachedMatch toLowerCase b query path := by
  have hext : ((b.extensions.map toLowerCase).isEmpty ||
      (b.extensions.map toLowerCase).contains (fileExtension toLowerCase path)) = true ↔
      b.extensions = [] ∨ fileExtension toLowerCase path ∈ b.extensions.map toLowerCase := by
    rw [Bool.or_eq_true, List.isEmpty_iff, List.map_eq_nil_iff, List.contains_iff_mem]
  simp only [isMatch, hq, Bool.and_eq_true, Option.map_some, Option.all_some, decide_eq_true_eq,
    hext, and_assoc]
  exact and_congr_right fun _ => ⟨fun ⟨h, h'⟩ => ⟨h, h'⟩, fun h => ⟨h.query, h.extension⟩⟩

/-- The text of a directory without blanks and slashes is shorter than that of a file in it. -/
lemma ne_of_folderOf (hd : normalizeQueryDirectory b.relativeDirectory ≠ "")
    (h : folderOf path = b.relativeDirectory) :
    path ≠ normalizeQueryDirectory b.relativeDirectory := by
  have hle := length_normalizeQueryDirectory b.relativeDirectory
  generalize normalizeQueryDirectory b.relativeDirectory = d at hd hle
  rw [← h] at hle
  rintro rfl
  have hne : folderOf path ≠ "" := by
    intro hempty
    rw [hempty] at hle
    exact hd (String.toList_eq_nil_iff.mp (List.length_eq_zero_iff.mp (Nat.le_zero.mp hle)))
  have hlt := length_folderOf hne
  omega

/-- **What the two searches make of one file** agrees just if they take it alike. -/
lemma agree_iff : ((isPathInQueryScope path (normalizeQueryDirectory b.relativeDirectory)
      b.searchScope = true ∧ CachedMatch toLowerCase b query path) ↔
        (InDirectory b path ∧ LiveMatch lower b query path)) ↔
    Alike toLowerCase lower b query path := by
  constructor
  · intro h
    refine ⟨fun hc hl => ?_, fun hl hc => ?_, fun hc hl hs hd hne => ?_, fun hc hl hs hd => ?_,
      fun hc hl hs hd => ?_, fun hc hl hs hd hne => ?_⟩
    · rw [← Bool.not_eq_true]
      exact fun hin => hl (h.mp ⟨hin, hc⟩).2
    · by_contra hno
      refine hc (h.mpr ⟨fun hs => ?_, hl⟩).2
      by_contra hne
      exact hno ⟨hs, hne⟩
    · have hin := (h.mpr ⟨fun hs' => absurd (hs.symm.trans hs') nofun, hl⟩).1
      rw [isPathInQueryScope_iff hd, hs] at hin
      exact hin.resolve_left hne
    · exact (h.mp ⟨by rw [hd]; rfl, hc⟩).1 hs
    · intro hpath
      have hin := (h.mp ⟨(isPathInQueryScope_iff hd).mpr (.inl hpath), hc⟩).1 hs
      exact ne_of_folderOf hd hin hpath
    · have hiff : folderOf path = normalizeQueryDirectory b.relativeDirectory ↔
          folderOf path = b.relativeDirectory := by
        constructor
        · intro hf
          refine (h.mp ⟨(isPathInQueryScope_iff hd).mpr (.inr ?_), hc⟩).1 hs
          rw [hs]
          exact hf
        · intro hf
          have hin := (h.mpr ⟨fun _ => hf, hl⟩).1
          rw [isPathInQueryScope_iff hd, hs] at hin
          exact hin.resolve_left (ne_of_folderOf hd hf)
      exact ⟨fun hf => hne ((hiff.mpr hf).symm.trans hf), fun hf => hne (hf.symm.trans (hiff.mp hf))⟩
  · intro h
    by_cases hc : CachedMatch toLowerCase b query path
    · by_cases hl : LiveMatch lower b query path
      · rw [and_iff_left hc, and_iff_left hl]
        by_cases hd : normalizeQueryDirectory b.relativeDirectory = ""
        · rw [hd]
          exact iff_of_true rfl fun hs => h.top hc hl hs hd
        rw [isPathInQueryScope_iff hd]
        cases hs : b.searchScope with
        | managedRoot =>
          refine iff_of_true ?_ fun hs' => absurd (hs.symm.trans hs') nofun
          exact or_iff_not_imp_left.mpr fun hne => h.below hc hl hs hd hne
        | currentDirectory =>
          rw [or_iff_right (h.itself hc hl hs hd)]
          unfold InDirectory
          rw [forall_prop_of_true hs]
          by_cases hne : normalizeQueryDirectory b.relativeDirectory = b.relativeDirectory
          · rw [hne]
          · obtain ⟨h₁, h₂⟩ := h.trimmed hc hl hs hd hne
            exact iff_of_false h₂ h₁
      · refine iff_of_false (fun hin => ?_) fun hin => hl hin.2
        have hout := h.onlyCached hc hl
        rw [hin.1] at hout
        cases hout
    · refine iff_of_false (fun hin => hc hin.2) fun ⟨hin, hl⟩ => ?_
      obtain ⟨hs, hne⟩ := h.onlyLive hl hc
      exact hne (hin hs)

/-! ### Requests -/

/-- What the schema says of a request. -/
structure Accepted (b : FileBrowseRequest) : Prop where
  directory : Contracts.relativeDirectorySchema b.relativeDirectory = true
  extensions : ∀ e ∈ b.extensions, isExtension e = true
  few : b.extensions.length ≤ 50
  limit : 1 ≤ b.limit ∧ b.limit ≤ 200

lemma accepted_of_schema {j : Contracts.Json} (h : createFileBrowseRequestSchema j = some b) :
    Accepted b := by
  unfold createFileBrowseRequestSchema at h
  simp only [Option.bind_eq_bind, Option.bind_eq_some_iff] at h
  obtain ⟨fields, -, dj, -, directory, hd, cursor, -, query, -, extensions, he, limit, hl, scope,
    -, h⟩ := h
  split at h
  · exact absurd h nofun
  obtain rfl := Option.some.inj h
  have hlimit : 1 ≤ limit ∧ limit ≤ 200 := by
    unfold Contracts.withDefault at hl
    split at hl
    · obtain rfl := Option.some.inj hl
      exact ⟨by decide, le_rfl⟩
    · obtain ⟨n, -, hl⟩ := Option.bind_eq_some_iff.mp hl
      split at hl
      · obtain rfl := Option.some.inj hl
        assumption
      · exact absurd hl nofun
  have hextensions : (∀ e ∈ extensions, isExtension e = true) ∧ extensions.length ≤ 50 := by
    unfold Contracts.withDefault at he
    split at he
    · obtain rfl := Option.some.inj he
      exact ⟨fun e hmem => absurd hmem List.not_mem_nil, Nat.zero_le 50⟩
    · obtain ⟨items, -, he⟩ := Option.bind_eq_some_iff.mp he
      obtain ⟨l, hl, he⟩ := Option.bind_eq_some_iff.mp he
      split at he
      · obtain rfl := Option.some.inj he
        refine ⟨fun e hmem => ?_, by assumption⟩
        obtain ⟨item, -, hitem⟩ := Contracts.mem_of_mapM hl e hmem
        exact Contracts.asStrWith_check hitem
      · exact absurd he nofun
  exact ⟨Contracts.asStrWith_check hd, hextensions.1, hextensions.2, hlimit⟩

/-! ### Files that stand -/

variable {s : Sys} {g : PathGuard} {t : Tree} {p cur : Path} {nd : Node}

lemma lstat_raw (hp : p ≠ []) (h : t.get p = some nd) : t.lstat p.raw = .ok nd := by
  obtain ⟨p, n, rfl⟩ := List.eq_nil_or_concat p |>.resolve_left hp
  rw [List.concat_eq_append] at h ⊢
  have hd : t.isDir p = true := Tree.isDir_parent (n := n) (by rw [h]; exact Option.some_ne_none nd)
  have hlast : (Path.raw (p ++ [n])).getLast? = some (.name n) := by rw [raw_snoc]; simp
  unfold Tree.lstat
  rw [hlast]
  simp only [raw_snoc, Tree.entryAt_name hd, bind, Except.bind, h, Tree.lstat.found]

/-- The way to an entry that is no link crosses none. -/
lemma walkNoLinks_raw (h : t.Solid (cur ++ p)) : walkNoLinks t cur p.raw = .ok () := by
  induction p generalizing cur with
  | nil => rfl
  | cons n p ih =>
    have hcp : cur ++ n :: p = cur ++ [n] ++ p := by simp
    rw [hcp] at h
    have hmid : t.Solid (cur ++ [n]) := by
      by_cases hp : p = []
      · subst hp
        simpa using h
      · obtain ⟨nd, hnd, -⟩ := h
        exact Tree.solid_of_isDir (Tree.isDir_above (by rw [hnd]; exact Option.some_ne_none nd) hp)
    obtain ⟨nd, hnd, hlink⟩ := hmid
    have hraw : Path.raw (n :: p) = .name n :: Path.raw p := rfl
    rw [hraw, walkNoLinks, lstat_raw (by simp) hnd]
    simp only [hlink, Bool.false_eq_true, if_false]
    exact ih h

lemma components_raw (hp : p ≠ []) : components p.raw = p.raw := by
  have hkept : p.raw.filter (fun x => !x.isTrivial) = p.raw := by
    refine List.filter_eq_self.mpr fun x hx => ?_
    obtain ⟨n, -, rfl⟩ := List.mem_map.mp hx
    rfl
  obtain ⟨n, p, rfl⟩ := List.exists_cons_of_ne_nil hp
  exact hkept

lemma isAbsolute_text (hp : p ≠ []) : isAbsolute p.text = false := by
  obtain ⟨n, p, rfl⟩ := List.exists_cons_of_ne_nil hp
  by_cases hq : p = []
  · rw [hq, text_singleton, isAbsolute_name]
  · rw [text_cons n hq, String.append_assoc, isAbsolute_append (name_ne_empty n), isAbsolute_name]

/-- **A place that is no link** is one that no link leads to. -/
lemma validateNoLinkPath_text (hp : p ≠ []) (h : t.Solid (g.root ++ p)) {requireDirectory : Bool}
    (hd : requireDirectory = true → t.isDir (g.root ++ p) = true) :
    validateNoLinkPath g t p.text requireDirectory = .ok () := by
  have hresolve : g.resolveExisting t p.text = .ok (g.root ++ p) := by
    rw [PathGuard.resolveExisting_ok, join, isAbsolute_text hp, if_neg Bool.false_ne_true,
      segsOf_text hp, ← raw_append]
    refine ⟨Tree.realpath_raw h, List.prefix_append _ _, rfl, fun hmem => ?_⟩
    obtain ⟨n, -, hn⟩ := List.mem_map.mp hmem
    cases hn
  rw [validateNoLinkPath, if_neg (text_ne_empty hp), isAbsolute_text hp, if_neg Bool.false_ne_true,
    segsOf_text hp, components_raw hp, walkNoLinks_raw h, hresolve]
  cases requireDirectory with
  | false => rfl
  | true => simp [hd rfl, bind, Except.bind, Except.mapError]

/-! ### Extensions -/

lemma isAlphanum_toLower {c : Char} (h : c.isAlphanum = true) : c.toLower.isAlphanum = true := by
  have hall : ∀ n < 128, (Char.ofNat n).isAlphanum = true →
      (Char.ofNat n).toLower.isAlphanum = true := by decide +kernel
  have hc := hall c.toNat (toNat_lt_of_alphanum h)
  rw [Char.ofNat_toNat] at hc
  exact hc h

/-- An extension of the schema loses its dot. -/
lemma normalizeExtension_ok {e : String} (h : isExtension e = true) :
    ∃ bare, normalizeExtension e = .ok bare ∧ "." ++ bare = toAsciiLowercase e := by
  unfold isExtension at h
  split at h
  · next rest hrest =>
    simp only [Bool.and_eq_true, decide_eq_true_eq, List.all_eq_true] at h
    obtain ⟨hne, hall⟩ := h
    have htrim : trim e = e := by
      refine trim_eq_self fun c hc => ?_
      rw [hrest] at hc
      rcases List.mem_cons.mp hc with rfl | hc
      · decide
      · exact (alphanum_spec (hall c hc)).1
    have hlower : (trim e).toList.map Char.toLower = '.' :: rest.map Char.toLower := by
      rw [htrim, hrest]
      rfl
    have hrefused : ¬ (rest.map Char.toLower = [] ∨
        ¬ (rest.map Char.toLower).all Char.isAlphanum = true) := by
      rintro (hnil | hno)
      · exact hne (List.map_eq_nil_iff.mp hnil)
      · refine hno (List.all_eq_true.mpr fun d hd => ?_)
        obtain ⟨c, hc, rfl⟩ := List.mem_map.mp hd
        exact isAlphanum_toLower (hall c hc)
    refine ⟨String.ofList (rest.map Char.toLower), ?_, ?_⟩
    · unfold normalizeExtension
      rw [hlower]
      exact if_neg hrefused
    · rw [← String.toList_inj, toAsciiLowercase, hrest]
      simp
  · cases h

lemma mapM_normalizeExtension {l : List String} (h : ∀ e ∈ l, isExtension e = true) :
    ∃ bare, l.mapM normalizeExtension = .ok bare ∧
      bare.map ("." ++ ·) = l.map toAsciiLowercase := by
  induction l with
  | nil => exact ⟨[], rfl, rfl⟩
  | cons e l ih =>
    obtain ⟨x, hx, hdot⟩ := normalizeExtension_ok (h e List.mem_cons_self)
    obtain ⟨bare, hbare, hmap⟩ := ih fun e he => h e (List.mem_cons_of_mem _ he)
    refine ⟨x :: bare, ?_, by rw [List.map_cons, List.map_cons, hdot, hmap]⟩
    simp only [List.mapM_cons, hx, hbare]
    rfl

/-! ### The row of a file -/

variable {ix : FileIndex} {x : Indexed} {root : RawPath} {row : SearchRow}

/-- What the row of a file says of it. -/
structure RowOf (lower : String → String) (path : String) (row : SearchRow) : Prop where
  relativePath : row.relativePath = path
  name : row.name = nameOf path
  parent : row.parentRelativePath = folderOf path
  normalized : row.normalizedName = lower (nameOf path)
  isFile : row.isDir = false
  extension : row.extension = extensionOf path

lemma joinComponents_raw (p : Path) : joinComponents (components p.raw) = p.text := by
  have hraw : joinComponents p.raw = p.text := by
    rw [joinComponents, Path.raw, List.map_map]
    rfl
  by_cases hp : p = []
  · subst hp
    rfl
  · rw [components_raw hp, hraw]

lemma OnDesktop.exists_row (h : OnDesktop s lower g ix path) :
    ∃ row ∈ ix.entries, RowOf lower path row := by
  obtain ⟨p, hp, hpath, -⟩ := h.file
  obtain ⟨size, modified, e, he, hrel, hmem⟩ := h.row
  obtain ⟨p, n, rfl⟩ := List.eq_nil_or_concat p |>.resolve_left hp
  rw [List.concat_eq_append] at hpath hp
  unfold indexedSearchEntry at he
  obtain ⟨name, hname, rfl⟩ := Option.map_eq_some_iff.mp he
  have hsame : normalizeSeparators path = path := hrel
  have hsegs : segsOf path = Path.raw p ++ [.name n] := by
    rw [hpath, segsOf_text hp, raw_snoc]
  rw [hsame, hsegs, fileName_name] at hname
  obtain rfl := Option.some.inj hname
  refine ⟨_, hmem, hsame, ?_, ?_, ?_, rfl, ?_⟩
  · rw [hpath, nameOf_text]
    rfl
  · have hparent : (segsOf path).parent = some (Path.raw p) := by rw [hsegs, parent_name]
    have hfolder : folderOf path = Path.text p := by rw [hpath, folderOf_text]
    simp only [searchRow, hsame, hparent, Option.getD_some, joinComponents_raw, hfolder]
  · rw [hpath, nameOf_text]
    rfl
  · simp only [searchRow, hsame, Bool.false_eq_true, if_false]

/-- The row of a path is the only one. -/
lemma RowOf.unique (h : RowOf lower path row) (hmem : row ∈ ix.entries) {row' : SearchRow}
    (hmem' : row' ∈ ix.entries) (hpath : row'.relativePath = path) : row' = row :=
  List.inj_on_of_nodup_map ix.uniqueEntries hmem' hmem (hpath.trans h.relativePath.symm)

/-- **A file that stands is a hit**, unless it is one of the engine's own. -/
lemma OnDesktop.hit_iff (h : OnDesktop s lower g ix path) (hrow : RowOf lower path row) :
    validateIndexedSearchHit g s.tree row.toIndexedSearchEntry = true ↔
      ∀ name ∈ splitSlash path.toList, name ≠ STATE_DIR.toList ∧ name ≠ TRASH_DIR.toList := by
  obtain ⟨p, hp, hpath, hfile⟩ := h.file
  obtain ⟨c, m, i, hget⟩ := Tree.isFile_iff.mp hfile
  have hpieces : splitSlash path.toList = p.map fun n => n.1.toList := by
    rw [hpath, splitSlash_of_segsOf (segsOf_text hp)]
  have hnolink : (validateNoLinkPath g s.tree path false).isOk = true := by
    have hok : validateNoLinkPath g s.tree p.text false = .ok () :=
      validateNoLinkPath_text hp ⟨_, hget, rfl⟩ fun hno => absurd hno Bool.false_ne_true
    rw [hpath, hok]
    rfl
  have hstat : s.tree.lstat (join g.root path) = .ok (.file c m i) := by
    rw [hpath, join, isAbsolute_text hp, if_neg Bool.false_ne_true, segsOf_text hp, ← raw_append]
    exact lstat_raw (by simp [hp]) hget
  have hnames : ∀ name ∈ splitSlash path.toList, name ≠ [] ∧ name ≠ ['.', '.'] := by
    intro name hname
    rw [hpieces] at hname
    obtain ⟨n, -, rfl⟩ := List.mem_map.mp hname
    exact ⟨fun hnil => n.2.1 (String.toList_eq_nil_iff.mp hnil),
      fun hdots => n.2.2.2.1 (String.toList_inj.mp hdots)⟩
  unfold validateIndexedSearchHit
  simp only [hrow.relativePath, hrow.isFile, hnolink, hstat, Bool.and_true, Bool.not_false,
    Bool.not_eq_true', List.any_eq_false, Bool.or_eq_true, decide_eq_true_eq, not_or]
  exact forall₂_congr fun name hname =>
    ⟨fun hno => ⟨hno.1.1.1, hno.1.1.2⟩, fun hno => ⟨⟨hno, (hnames name hname).1⟩,
      (hnames name hname).2⟩⟩

lemma normalizeRelativeDirectory_ok {directory : String}
    (h : Contracts.relativeDirectorySchema directory = true) :
    normalizeRelativeDirectory directory = .ok directory := by
  rw [Contracts.relativeDirectorySchema, Bool.or_eq_true, decide_eq_true_eq] at h
  rcases h with h | rfl
  · obtain ⟨p, hp, rfl⟩ := Contracts.relativePath_text h
    have hkept : (Path.raw p).filter (fun x => !x.isTrivial) = p.raw := by
      refine List.filter_eq_self.mpr fun x hx => ?_
      obtain ⟨n, -, rfl⟩ := List.mem_map.mp hx
      rfl
    have hok : ¬ (isAbsolute p.text ∨ Seg.dotdot ∈ segsOf p.text) := by
      rw [isAbsolute_text hp, segsOf_text hp]
      rintro (habs | hmem)
      · cases habs
      · obtain ⟨n, -, hn⟩ := List.mem_map.mp hmem
        cases hn
    rw [normalizeRelativeDirectory, if_neg hok, segsOf_text hp, hkept, ← joinComponents_raw,
      components_raw hp]
  · decide

/-- The folder of a file that stands is one that can be searched. -/
lemma OnDesktop.validateScope_ok (h : OnDesktop s lower g ix path) (hin : InDirectory b path) :
    validateScope g s.tree (searchScope b.searchScope) b.relativeDirectory = .ok () := by
  cases hs : b.searchScope with
  | managedRoot => rfl
  | currentDirectory =>
    obtain ⟨p, hp, hpath, hfile⟩ := h.file
    obtain ⟨c, m, i, hget⟩ := Tree.isFile_iff.mp hfile
    obtain ⟨p, n, rfl⟩ := List.eq_nil_or_concat p |>.resolve_left hp
    rw [List.concat_eq_append] at hpath hget
    have hfolder : b.relativeDirectory = Path.text p := by rw [← hin hs, hpath, folderOf_text]
    rw [hfolder]
    change validateNoLinkPath g s.tree (Path.text p) true = .ok ()
    by_cases hq : p = []
    · subst hq
      exact if_pos rfl
    · have hd : s.tree.isDir (g.root ++ p) = true := by
        refine Tree.isDir_parent (n := n) ?_
        rw [List.append_assoc, hget]
        exact Option.some_ne_none _
      exact validateNoLinkPath_text hq (Tree.solid_of_isDir hd) fun _ => hd

/-- **The arguments** of an accepted request are refused for a query that is too short without its
blanks, or for the directory. -/
lemma checkArgs_iff (lower : String → String) (query : String) (ha : Accepted b)
    (hg : PathGuard.new s.tree root = .ok g) :
    ∃ bare, bare.map ("." ++ ·) = b.extensions.map toAsciiLowercase ∧ ∀ q,
      checkArgs lower s.tree ((searchRequest b query).args root) = .ok q ↔
        (2 ≤ (trim query).length ∧ (trim query).length ≤ 100) ∧
        validateScope g s.tree (searchScope b.searchScope) b.relativeDirectory = .ok () ∧
        ⟨g, lower (trim query), searchScope b.searchScope, b.relativeDirectory, b.limit, bare⟩ =
          q := by
  obtain ⟨bare, hbare, hmap⟩ := mapM_normalizeExtension ha.extensions
  have hfilter : normalizeExtensionFilter b.extensions = .ok bare := by
    rw [normalizeExtensionFilter, if_neg (by have := ha.few; omega), hbare]
  refine ⟨bare, hmap, fun q => ?_⟩
  simp only [checkArgs, searchRequest, Desktop.RemoteView.SearchRequest.args, ha.limit, and_self,
    not_true_eq_false, if_false]
  by_cases hlen : 2 ≤ (trim query).length ∧ (trim query).length ≤ 100
  · rw [if_neg (not_not_intro hlen)]
    simp only [bind_eq_ok, hfilter, hg, normalizeRelativeDirectory_ok ha.directory,
      Except.ok.injEq, Except.mapError, exists_eq_left', hlen, and_self, true_and, pure,
      Except.pure]
    constructor
    · rintro ⟨_, hv, hq⟩
      exact ⟨hv, hq⟩
    · rintro ⟨hv, hq⟩
      exact ⟨_, hv, hq⟩
  · rw [if_pos hlen]
    simp [hlen]

/-- **What the desktop lists** of the files that stand. -/
lemma lists_iff_match (ha : Accepted b) (hg : PathGuard.new s.tree root = .ok g) (hx : x.Fits)
    (hi : ensureIndex s lower root x = .ok ix) (h : OnDesktop s lower g ix path) :
    Lists s lower root x (searchRequest b query) path ↔
      InDirectory b path ∧ LiveMatch lower b query path := by
  obtain ⟨row, hmem, hrow⟩ := h.exists_row
  obtain ⟨bare, hbare, hargs⟩ := checkArgs_iff lower query ha hg
  have hselects : selects (searchScope b.searchScope) b.relativeDirectory (lower (trim query)) row =
      true ↔ InDirectory b path ∧
        (lower (trim query)).toList <:+: (lower (nameOf path)).toList := by
    unfold selects
    rw [Bool.and_eq_true, decide_eq_true_eq, hrow.normalized]
    refine and_congr_left fun _ => ?_
    unfold InDirectory
    cases b.searchScope with
    | managedRoot => exact iff_of_true rfl nofun
    | currentDirectory =>
      rw [forall_prop_of_true rfl, ← hrow.parent]
      exact decide_eq_true_iff
  have hextension : indexedEntryMatchesExtensions row.toIndexedSearchEntry bare = true ↔
      b.extensions = [] ∨ ∃ extension, extensionOf path = some extension ∧
        "." ++ extension ∈ b.extensions.map toAsciiLowercase := by
    have hnil : bare = [] ↔ b.extensions = [] := by
      rw [← List.map_eq_nil_iff, hbare, List.map_eq_nil_iff]
    have hdot : Function.Injective fun extension : String => "." ++ extension := by
      intro e e' heq
      simpa [← String.toList_inj] using heq
    simp only [indexedEntryMatchesExtensions, hrow.isFile, hrow.extension, Bool.not_false,
      Bool.true_and, Bool.or_eq_true, List.isEmpty_iff, hnil, Option.any_eq_true,
      List.contains_iff_mem, ← hbare, List.mem_map_of_injective hdot]
  rw [lists_iff hx hi rfl]
  constructor
  · rintro ⟨-, q, hq, row', hmem', hsel, hhit, hshown, hpath⟩
    obtain ⟨hlen, -, rfl⟩ := (hargs q).mp hq
    obtain rfl := hrow.unique hmem hmem' hpath
    obtain ⟨hstands, hext⟩ := Bool.and_eq_true_iff.mp hhit
    obtain ⟨hin, hname⟩ := hselects.mp hsel
    exact ⟨hin, hlen, hname, hextension.mp hext, hrow.name ▸ hshown, (h.hit_iff hrow).mp hstands⟩
  · rintro ⟨hin, hl⟩
    refine ⟨ha.limit, _, (hargs _).mpr ⟨hl.length, h.validateScope_ok hin, rfl⟩, row, hmem,
      hselects.mpr ⟨hin, hl.query⟩, ?_, ?_, hrow.relativePath⟩
    · exact Bool.and_eq_true_iff.mpr ⟨(h.hit_iff hrow).mpr hl.notOwn, hextension.mpr hl.extension⟩
    · exact (congrArg isRemotelyBrowsableName hrow.name).trans hl.shown

/-- **Cached and live search agree** on the files that stand unchanged, exactly if each of them is
taken alike. -/
theorem searches_agree_iff (toLowerCase lower : String → String) {j : Contracts.Json}
    {b : FileBrowseRequest} {query : String} (hj : createFileBrowseRequestSchema j = some b)
    (hq : b.query = some query) {files : List CachedFile} {roomId : ℕ}
    (hrows : (files.filter (servable roomId)).length < 400)
    (hpage : (files.filter (servable roomId)).length < b.limit)
    {s : Sys} {root : RawPath} {g : PathGuard} {x : Indexed} {ix : FileIndex}
    (hg : PathGuard.new s.tree root = .ok g) (hx : x.Fits)
    (hi : ensureIndex s lower root x = .ok ix)
    (hfiles : ∀ f ∈ files.filter (servable roomId),
      OnDesktop s lower g ix f.sourceRelativePath) :
    (∀ f ∈ files.filter (servable roomId),
      (cacheEntry f ∈ cachedBrowseEntriesIn toLowerCase files roomId b ↔
        Lists s lower root x (searchRequest b query) f.sourceRelativePath)) ↔
      ∀ f ∈ files.filter (servable roomId), Alike toLowerCase lower b query f.sourceRelativePath := by
  have ha := accepted_of_schema hj
  refine forall₂_congr fun f hf => ?_
  rw [mem_cachedBrowseEntriesIn hrows hpage ha.limit.2 hf, isMatch_iff hq,
    lists_iff_match ha hg hx hi (hfiles f hf), agree_iff]

/-! ### Samples -/

def notesPath : Path := [⟨"docs", validName_docs⟩, ⟨"notes.txt", validName_notes⟩]

def sampleRoot : Path := [⟨"root", validName_root⟩]

/-- One file in a folder of the managed root. -/
def withDocs : Sys := .fresh
  [(sampleRoot, .dir 1), (sampleRoot ++ [⟨"docs", validName_docs⟩], .dir 2),
    (sampleRoot ++ notesPath, .file [1] none 3)]

def notesRow : SearchRow :=
  { name := "notes.txt", relativePath := "docs/notes.txt", isDir := false, extension := some "txt"
    sizeBytes := some 1, modifiedUnixMs := none, parentRelativePath := "docs"
    normalizedName := "notes.txt" }

def notesIndex : FileIndex where
  files := []
  entries := [notesRow]
  generation := 1
  initialized := true
  uniqueFiles := List.nodup_nil
  uniqueEntries := by decide

def notesFile : CachedFile :=
  { id := 1, roomId := 1, sourceRelativePath := "docs/notes.txt", sourceVersion := "1"
    sourceVersionHash := "1", usageScore := 1, manualPin := false, objectKey := "1"
    sizeBytes := 1, sha256 := "1", encryptionMetadata := "1", availabilityStatus := .available
    freshnessStatus := .verifiedCurrent, cachedAt := 1, lastVerifiedAt := 1
    lastAccessedAt := none }

/-- The search of one directory for notes. -/
def notesRequest (directory : String) : FileBrowseRequest :=
  ⟨directory, none, some "notes", [], 200, .currentDirectory⟩

def notesJson (directory : String) : Contracts.Json :=
  .obj [("relativeDirectory", .str directory), ("query", .str "notes")]

lemma withDocs_guard : PathGuard.new withDocs.tree sampleRoot.raw = .ok ⟨sampleRoot⟩ :=
  new_root (by decide +kernel)

lemma notes_onDesktop : OnDesktop withDocs toAsciiLowercase ⟨sampleRoot⟩ notesIndex
    "docs/notes.txt" where
  file := ⟨notesPath, by decide, by decide, by decide +kernel⟩
  row := ⟨some 1, none, notesRow.toIndexedSearchEntry, by decide +kernel, rfl, by decide +kernel⟩

lemma notes_ensureIndex : ensureIndex withDocs toAsciiLowercase sampleRoot.raw
    ⟨notesIndex, [], []⟩ = .ok notesIndex := by
  rw [ensureIndex, withDocs_guard]
  rfl

lemma notes_alike : Alike toAsciiLowercase toAsciiLowercase (notesRequest "docs") "notes"
    "docs/notes.txt" := by
  have hc : CachedMatch toAsciiLowercase (notesRequest "docs") "notes" "docs/notes.txt" :=
    ⟨by decide +kernel, .inl rfl⟩
  have hl : LiveMatch toAsciiLowercase (notesRequest "docs") "notes" "docs/notes.txt" :=
    ⟨by decide +kernel, by decide +kernel, .inl rfl, by decide +kernel, by decide +kernel⟩
  exact ⟨fun _ hno => absurd hl hno, fun _ hno => absurd hc hno, fun _ _ hs => absurd hs (by decide),
    fun _ _ _ hd => absurd hd (by decide +kernel), fun _ _ _ _ => by decide +kernel,
    fun _ _ _ _ hne => absurd (by decide +kernel) hne⟩

theorem searches_agree_iff_sample :
    cacheEntry notesFile ∈ cachedBrowseEntriesIn toAsciiLowercase [notesFile] 1
      (notesRequest "docs") ↔
    Lists withDocs toAsciiLowercase sampleRoot.raw ⟨notesIndex, [], []⟩
      (searchRequest (notesRequest "docs") "notes") "docs/notes.txt" := by
  have hone : [notesFile].filter (servable 1) = [notesFile] := by decide
  refine (searches_agree_iff toAsciiLowercase toAsciiLowercase (j := notesJson "docs")
    (by decide +kernel) rfl (by decide) (by decide) withDocs_guard ⟨by decide, by decide, by decide⟩
    notes_ensureIndex ?_).mpr ?_ notesFile (by rw [hone]; exact List.mem_singleton_self _)
  · intro f hf
    rw [hone, List.mem_singleton] at hf
    exact hf ▸ notes_onDesktop
  · intro f hf
    rw [hone, List.mem_singleton] at hf
    exact hf ▸ notes_alike

/-- A search of the root alone is answered from the cache with a file in a folder of it. -/
theorem not_searches_agree : ¬ ∀ (toLowerCase lower : String → String) (j : Contracts.Json)
    (b : FileBrowseRequest) (query : String) (files : List CachedFile) (roomId : ℕ) (s : Sys)
    (root : RawPath) (g : PathGuard) (x : Indexed) (ix : FileIndex),
    createFileBrowseRequestSchema j = some b → b.query = some query →
    (files.filter (servable roomId)).length < 400 →
    (files.filter (servable roomId)).length < b.limit →
    PathGuard.new s.tree root = .ok g → x.Fits → ensureIndex s lower root x = .ok ix →
    (∀ f ∈ files.filter (servable roomId), OnDesktop s lower g ix f.sourceRelativePath) →
      ∀ f ∈ files.filter (servable roomId),
        (cacheEntry f ∈ cachedBrowseEntriesIn toLowerCase files roomId b ↔
          Lists s lower root x (searchRequest b query) f.sourceRelativePath) := by
  intro hall
  have hone : [notesFile].filter (servable 1) = [notesFile] := by decide
  have hmem : notesFile ∈ [notesFile].filter (servable 1) := by
    rw [hone]
    exact List.mem_singleton_self _
  have hj : createFileBrowseRequestSchema (notesJson "") = some (notesRequest "") := by
    decide +kernel
  have hx : Indexed.Fits ⟨notesIndex, [], []⟩ := ⟨by decide, by decide, by decide⟩
  have hagree := hall toAsciiLowercase toAsciiLowercase (notesJson "") (notesRequest "") "notes"
    [notesFile] 1 withDocs sampleRoot.raw ⟨sampleRoot⟩ ⟨notesIndex, [], []⟩ notesIndex hj rfl
    (by decide) (by decide) withDocs_guard hx notes_ensureIndex
    (fun f hf => by
      rw [hone, List.mem_singleton] at hf
      exact hf ▸ notes_onDesktop) notesFile hmem
  have hcached : cacheEntry notesFile ∈ cachedBrowseEntriesIn toAsciiLowercase [notesFile] 1
      (notesRequest "") :=
    (mem_cachedBrowseEntriesIn (by decide) (by decide) (by decide) hmem).mpr (by decide +kernel)
  have hlive := (lists_iff_match (accepted_of_schema hj) withDocs_guard hx notes_ensureIndex
    notes_onDesktop).mp (hagree.mp hcached)
  exact absurd (hlive.1 rfl) (by decide +kernel)

end MouseKeeper.Chat.CachedSearch
