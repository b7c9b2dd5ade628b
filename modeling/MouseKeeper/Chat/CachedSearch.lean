import MouseKeeper.Contracts.FileRequests
import MouseKeeper.Posix.Text
import MouseKeeper.Storage.Tables

/-!
The cached files that answer a search before the desktop does.

The files of the room that are available and not stale are read in the order of their use, and
each is tested on the text of its path: whether it lies in the directory, whether the query stands
in it and whether it ends in one of the extensions. The lower case of a text is a parameter. Files
that are used alike come in the order of the table.
-/

namespace MouseKeeper.Chat.CachedSearch

open Posix
open Contracts (FileBrowseRequest SearchScope trim)
open Storage (CachedFile Freshness)

/-- `replace(/^\/+|\/+$/g, '')`. -/
def stripSlashes (l : List Char) : List Char :=
  ((l.dropWhile (· = '/')).reverse.dropWhile (· = '/')).reverse

def normalizeQueryDirectory (value : String) : String :=
  String.ofList (stripSlashes (trim value).toList)

def isPathInQueryScope (path directory : String) (scope : SearchScope) : Bool :=
  if directory = "" then true
  else if path = directory then true
  else if !(directory ++ "/").toList.isPrefixOf path.toList then false
  else if scope = .managedRoot then true
  else '/' ∉ path.toList.drop (directory.toList.length + 1)

section Entries

variable (toLowerCase : String → String)

/-- The last piece of the path from its last dot on. -/
def fileExtension (path : String) : String :=
  let name := (splitSlash path.toList).getLast (splitSlash_ne_nil _)
  if '.' ∈ name then
    toLowerCase (String.ofList ('.' :: (name.reverse.takeWhile (· ≠ '.')).reverse))
  else ""

structure CacheEntry where
  id : ℕ
  relativePath : String
  sizeBytes : ℕ
  freshnessStatus : Freshness
  cachedAt : ℕ
  lastVerifiedAt : ℕ
  deriving DecidableEq

def cacheEntry (f : CachedFile) : CacheEntry :=
  ⟨f.id, f.sourceRelativePath, f.sizeBytes, f.freshnessStatus, f.cachedAt, f.lastVerifiedAt⟩

/-- The files of the room that can be handed out. -/
def servable (roomId : ℕ) (f : CachedFile) : Bool :=
  f.roomId = roomId && f.availabilityStatus = .available && f.freshnessStatus ≠ .stale

/-- `orderBy(desc(usageScore), desc(cachedAt))`. -/
def notLessUsed (a b : CachedFile) : Bool :=
  b.usageScore < a.usageScore || (a.usageScore = b.usageScore && b.cachedAt ≤ a.cachedAt)

/-- The tests of the loop. -/
def isMatch (browse : FileBrowseRequest) (path : String) : Bool :=
  let directory := normalizeQueryDirectory browse.relativeDirectory
  let query := browse.query.map fun query => toLowerCase (trim query)
  let extensions := browse.extensions.map toLowerCase
  isPathInQueryScope path directory browse.searchScope &&
    query.all (fun query => decide (query.toList <:+: (toLowerCase path).toList)) &&
    (extensions.isEmpty || extensions.contains (fileExtension toLowerCase path))

def cachedBrowseEntriesIn (files : List CachedFile) (roomId : ℕ) (browse : FileBrowseRequest) :
    List CacheEntry :=
  let limit := min (max browse.limit 1) 200
  let rows := ((files.filter (servable roomId)).mergeSort notLessUsed).take 400
  ((rows.filter fun f => isMatch toLowerCase browse f.sourceRelativePath).take limit).map cacheEntry

end Entries

variable {toLowerCase : String → String} {files : List CachedFile} {roomId : ℕ}
  {browse : FileBrowseRequest} {path directory a b : String} {scope : SearchScope}

/-- **Which files are found**, where no limit is reached. -/
lemma mem_cachedBrowseEntriesIn (hrows : (files.filter (servable roomId)).length < 400)
    (hpage : (files.filter (servable roomId)).length < browse.limit) (hlimit : browse.limit ≤ 200)
    {f : CachedFile} (hf : f ∈ files.filter (servable roomId)) :
    cacheEntry f ∈ cachedBrowseEntriesIn toLowerCase files roomId browse ↔
      isMatch toLowerCase browse f.sourceRelativePath = true := by
  have hall : ((files.filter (servable roomId)).mergeSort notLessUsed).take 400 =
      (files.filter (servable roomId)).mergeSort notLessUsed :=
    List.take_of_length_le (by rw [List.length_mergeSort]; omega)
  have hlen := List.length_filter_le (fun f => isMatch toLowerCase browse f.sourceRelativePath)
    ((files.filter (servable roomId)).mergeSort notLessUsed)
  rw [List.length_mergeSort] at hlen
  simp only [cachedBrowseEntriesIn, hall]
  rw [List.take_of_length_le (by omega), List.mem_map]
  constructor
  · rintro ⟨f', hf', heq⟩
    obtain ⟨-, hm⟩ := List.mem_filter.mp hf'
    have hpath : f'.sourceRelativePath = f.sourceRelativePath := congrArg CacheEntry.relativePath heq
    rw [← hpath]
    exact hm
  · intro hm
    exact ⟨f, List.mem_filter.mpr ⟨List.mem_mergeSort.mpr hf, hm⟩, rfl⟩

/-! ### Folders and names -/

/-- What stands before the last slash of a path. -/
def folderOf (path : String) : String := ((rsplitSlash path).map (·.1)).getD ""

/-- What stands after the last slash of a path. -/
def nameOf (path : String) : String := ((rsplitSlash path).map (·.2)).getD path

lemma rsplitSlash_append (h : '/' ∉ b.toList) : rsplitSlash (a ++ "/" ++ b) = some (a, b) := by
  have hne : ∀ c ∈ b.toList.reverse, decide (c ≠ '/') = true := by
    intro c hc
    have hc : c ≠ '/' := fun heq => h (heq ▸ List.mem_reverse.mp hc)
    simpa using hc
  have hl : (a ++ "/" ++ b).toList.reverse = b.toList.reverse ++ '/' :: a.toList.reverse := by simp
  rw [rsplitSlash, if_pos (by simp), hl, List.takeWhile_append_of_pos hne,
    List.dropWhile_append_of_pos hne]
  simp

lemma folderOf_append (h : '/' ∉ b.toList) : folderOf (a ++ "/" ++ b) = a := by
  rw [folderOf, rsplitSlash_append h]
  rfl

/-- A path with a slash is its folder and its name. -/
lemma folder_name (h : '/' ∈ path.toList) :
    path.toList = (folderOf path).toList ++ '/' :: (nameOf path).toList := by
  have hmem : '/' ∈ path.toList.reverse := List.mem_reverse.mpr h
  have hsplit := List.takeWhile_append_dropWhile (p := fun c => decide (c ≠ '/'))
    (l := path.toList.reverse)
  obtain ⟨c, t, ht⟩ : ∃ c t, path.toList.reverse.dropWhile (fun c => decide (c ≠ '/')) = c :: t := by
    refine List.exists_cons_of_ne_nil fun hnil => ?_
    have hall := List.dropWhile_eq_nil_iff.mp hnil '/' hmem
    simp at hall
  have hc : c = '/' := by
    have hhead := List.head?_dropWhile_not (fun c => decide (c ≠ '/')) path.toList.reverse
    rw [ht] at hhead
    simpa using hhead
  subst hc
  have hf : (folderOf path).toList = t.reverse := by
    rw [folderOf, rsplitSlash, if_pos h, ht]
    simp
  have hn : (nameOf path).toList =
      (path.toList.reverse.takeWhile fun c => decide (c ≠ '/')).reverse := by
    rw [nameOf, rsplitSlash, if_pos h]
    simp
  rw [ht] at hsplit
  calc path.toList = path.toList.reverse.reverse := (List.reverse_reverse _).symm
    _ = (path.toList.reverse.takeWhile (fun c => decide (c ≠ '/')) ++ '/' :: t).reverse := by
      rw [hsplit]
    _ = t.reverse ++ '/' :: (path.toList.reverse.takeWhile fun c => decide (c ≠ '/')).reverse := by
      rw [List.reverse_append, List.reverse_cons, List.append_assoc, List.singleton_append]
    _ = _ := by rw [hf, hn]

lemma slash_not_mem_nameOf (path : String) : '/' ∉ (nameOf path).toList := by
  unfold nameOf rsplitSlash
  split
  · intro h
    have h := List.mem_takeWhile_imp (List.mem_reverse.mp (by simpa using h))
    simp at h
  · assumption

lemma slash_of_folderOf (h : folderOf path ≠ "") : '/' ∈ path.toList := by
  by_contra hno
  exact h (by rw [folderOf, rsplitSlash, if_neg hno]; rfl)

/-- A path in a folder is longer than the path of that folder. -/
lemma length_folderOf (h : folderOf path ≠ "") :
    (folderOf path).toList.length < path.toList.length := by
  have hlen := congrArg List.length (folder_name (slash_of_folderOf h))
  rw [List.length_append, List.length_cons] at hlen
  omega

lemma folderOf_text {p : Path} {n : Name} : folderOf (Path.text (p ++ [n])) = p.text := by
  by_cases hp : p = []
  · subst hp
    rw [folderOf, List.nil_append, text_singleton, rsplitSlash_name]
    rfl
  · rw [folderOf, rsplitSlash_snoc hp]
    rfl

lemma nameOf_text {p : Path} {n : Name} : nameOf (Path.text (p ++ [n])) = n.1 := by
  by_cases hp : p = []
  · subst hp
    rw [nameOf, List.nil_append, text_singleton, rsplitSlash_name]
    rfl
  · rw [nameOf, rsplitSlash_snoc hp]
    rfl

/-! ### Directories -/

lemma length_dropEnds (p : Char → Bool) (l : List Char) :
    ((l.dropWhile p).reverse.dropWhile p).reverse.length ≤ l.length := by
  have h := List.length_dropWhile_le p l
  have h' := List.length_dropWhile_le p (l.dropWhile p).reverse
  rw [List.length_reverse] at h' ⊢
  omega

lemma length_normalizeQueryDirectory (value : String) :
    (normalizeQueryDirectory value).toList.length ≤ value.toList.length := by
  have h := length_dropEnds (· = '/') (trim value).toList
  have h' := length_dropEnds Contracts.isWhiteSpace value.toList
  rw [normalizeQueryDirectory, String.toList_ofList, stripSlashes]
  rw [trim, String.toList_ofList] at h ⊢
  omega

/-- **The scope of the cache.** -/
lemma isPathInQueryScope_iff (hd : directory ≠ "") :
    isPathInQueryScope path directory scope = true ↔ path = directory ∨
      match scope with
      | .managedRoot => (directory ++ "/").toList <+: path.toList
      | .currentDirectory => folderOf path = directory := by
  have hin : folderOf path = directory → (directory ++ "/").toList <+: path.toList := by
    rintro rfl
    exact ⟨(nameOf path).toList, by rw [folder_name (slash_of_folderOf hd)]; simp⟩
  unfold isPathInQueryScope
  rw [if_neg hd]
  by_cases hpath : path = directory
  · simp [hpath]
  rw [if_neg hpath, or_iff_right hpath]
  by_cases hpre : (directory ++ "/").toList <+: path.toList
  · rw [if_neg (by simpa using hpre)]
    cases scope with
    | managedRoot => simpa using hpre
    | currentDirectory =>
      obtain ⟨rest, hrest⟩ := hpre
      have hl : path.toList = directory.toList ++ '/' :: rest := by simp [← hrest]
      have hdrop : path.toList.drop (directory.toList.length + 1) = rest := by
        rw [hl, ← List.drop_drop, List.drop_left]
        rfl
      rw [hdrop]
      simp only [reduceCtorEq, if_false, decide_eq_true_eq]
      constructor
      · intro hno
        have hpath : path = directory ++ "/" ++ String.ofList rest := by
          rw [← String.toList_inj, hl]
          simp
        rw [hpath]
        exact folderOf_append (by rwa [String.toList_ofList])
      · intro hf hmem
        have hsplit := folder_name (slash_of_folderOf (hf ▸ hd))
        rw [hf, hl] at hsplit
        obtain rfl : rest = (nameOf path).toList := by simpa using hsplit
        exact slash_not_mem_nameOf path hmem
  · have hno : (!(directory ++ "/").toList.isPrefixOf path.toList) = true := by
      rw [Bool.not_eq_true', Bool.eq_false_iff]
      exact fun h => hpre (List.isPrefixOf_iff_prefix.mp h)
    rw [if_pos hno]
    cases scope with
    | managedRoot => simpa using hpre
    | currentDirectory =>
      simp only [Bool.false_eq_true, false_iff]
      exact fun h => hpre (hin h)

end MouseKeeper.Chat.CachedSearch
