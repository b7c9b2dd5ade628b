import MouseKeeper.Desktop.RemoteView

/-!
Which requests keep a hidden file hidden.

The lists filter the last name of what they show, and the other readers filter nothing. So a
hidden directory that is asked for by its path is listed, and a hidden file that is asked for
by its path is sent or read.
-/

namespace MouseKeeper.Desktop.RemoteView

open Posix FileEngine

/-- What another device can ask for. -/
inductive Request
  | browse (relativeDirectory : String) (cursor : Option String) (limit : ℕ)
  | search (lower : String → String) (x : Indexed) (r : SearchRequest)
  | transfer (sourceRelativePath : String) (transferId roomId : Option String)
  | extract (relativePath : String) (consent : Bool)

variable (os : Os) (s : Sys) (root : RawPath)

/-- A place as it is called below the root. -/
def belowRoot (p : Path) : List String :=
  match PathGuard.new s.tree root with
  | .ok guard => [relativeText guard.root p]
  | .error _ => []

/-- What a request lists, accepts or reads, by the paths below the root. -/
def shown : Request → List String
  | .browse relativeDirectory cursor limit =>
    match buildResultPageLimited os s root relativeDirectory cursor limit with
    | .ok result => result.entries.map (·.relativePath)
    | .error _ => []
  | .search lower x r =>
    match buildSearchResultPageLimited s lower root x r with
    | .ok result => result.entries.map (·.relativePath)
    | .error _ => []
  | .transfer sourceRelativePath transferId roomId =>
    match validateLocalTransferSource os s root sourceRelativePath transferId roomId with
    | .ok v => belowRoot s root v.resolvedPath
    | .error _ => []
  | .extract relativePath consent =>
    match readDocument s root relativePath consent with
    | .ok (path, _) => belowRoot s root path
    | .error _ => []

/-! ### What the requests reach -/

/-- A browse of `target` from an offset on. -/
structure Browses (relativeDirectory : String) (cursor : Option String) (limit : ℕ)
    (g : PathGuard) (target : Path) (offset : ℕ) : Prop where
  limit : 1 ≤ limit ∧ limit ≤ PAGE_SIZE
  cursor : parseCursor cursor = .ok offset
  target : browseTarget s root relativeDirectory = .ok (g, target)

/-- How many entries of a directory have a name that may be shown. -/
def browsable (g : PathGuard) (target : Path) : ℕ :=
  (((s.tree.listDir target).filterMap (browseEntry os s g.root target)).filter fun e =>
    isRemotelyBrowsableName e.name).length

/-- A search of an index from an offset on. -/
structure Searches (lower : String → String) (x : Indexed) (r : SearchRequest) (ix : FileIndex)
    (q : Search) (offset : ℕ) : Prop where
  limit : 1 ≤ r.limit ∧ r.limit ≤ PAGE_SIZE
  index : ensureIndex s lower root x = .ok ix
  args : checkArgs lower s.tree (r.args root) = .ok q
  cursor : ∃ generation, parseSearchCursor r.cursor (searchFingerprint lower r) =
    .ok (generation, offset) ∧ Current ix generation

/-- A file with something in it, asked for by a path that is no link itself. -/
structure Transferable (sourceRelativePath : String) (g : PathGuard) (p : Path) : Prop where
  shape : validateRelativePathShape sourceRelativePath = .ok ()
  guard : PathGuard.new s.tree root = .ok g
  resolved : g.resolveExisting s.tree sourceRelativePath = .ok p
  noLink : ∃ nd, s.tree.lstat (join g.root sourceRelativePath) = .ok nd ∧ nd.isSymlink = false
  file : ∃ c m i, s.tree.get p = some (.file c m i) ∧ c ≠ []

/-- A file of at most 20 MiB, asked for with consent. -/
structure Readable (relativePath : String) (consent : Bool) (g : PathGuard) (p : Path) :
    Prop where
  consent : consent = true
  guard : PathGuard.new s.tree root = .ok g
  resolved : g.resolveExisting s.tree relativePath = .ok p
  file : ∃ c m i, s.tree.get p = some (.file c m i) ∧ c.length ≤ MAX_DOCUMENT_BYTES

/-- No hidden directory with something to list is asked for; the rows that a search comes upon
have no hidden directory on their way; and no hidden file is asked for. -/
def AsksForNothingHidden : Request → Prop
  | .browse relativeDirectory cursor limit => ∀ g target offset,
    Browses s root relativeDirectory cursor limit g target offset →
      Hidden (relativeText g.root target) → browsable os s g target ≤ offset
  | .search lower x r => ∀ ix q offset, Searches s root lower x r ix q offset →
    ∀ row ∈ (((q.rows ix).drop offset).filter (q.hit s.tree)).take r.limit,
      isRemotelyBrowsableName row.name → ¬ Hidden row.relativePath
  | .transfer sourceRelativePath _ _ => ∀ g p,
    Transferable s root sourceRelativePath g p → ¬ Hidden (relativeText g.root p)
  | .extract relativePath consent => ∀ g p,
    Readable s root relativePath consent g p → ¬ Hidden (relativeText g.root p)

variable {os s root}

/-! ### Hidden places -/

lemma hidden_text {p : Path} (hp : p ≠ []) :
    Hidden p.text ↔ ∃ n ∈ p, isRemotelyBrowsableName n.1 = false := by
  unfold Hidden
  rw [splitSlash_of_segsOf (segsOf_text hp)]
  simp only [List.mem_map, exists_exists_and_eq_and, String.ofList_toList]

lemma not_hidden_empty : ¬ Hidden "" := by decide

/-- An entry with a name that may be shown is hidden if its directory is. -/
lemma hidden_entry {guardRoot target : Path} {n : Name} (hin : guardRoot <+: target)
    (hn : isRemotelyBrowsableName n.1 = true) :
    Hidden (relativeText guardRoot (target ++ [n])) ↔ Hidden (relativeText guardRoot target) := by
  obtain ⟨rel, rfl⟩ := hin
  simp only [relativeText, List.append_assoc, List.drop_left]
  rw [hidden_text (by simp)]
  by_cases hrel : rel = []
  · subst hrel
    simp only [List.nil_append, List.mem_singleton, exists_eq_left, hn]
    exact iff_of_false (by decide) not_hidden_empty
  · rw [hidden_text hrel]
    simp [hn]

/-! ### Lists -/

variable {relativeDirectory : String} {cursor : Option String} {limit : ℕ} {g : PathGuard}
  {target : Path} {offset : ℕ}

variable (os s) in
/-- What there is to list of a directory. -/
def offered (g : PathGuard) (target : Path) : List BrowseEntry :=
  (((s.tree.listDir target).filterMap (browseEntry os s g.root target)).mergeSort
    entryOrder).filter fun e => isRemotelyBrowsableName e.name

lemma length_offered : (offered os s g target).length = browsable os s g target :=
  ((List.mergeSort_perm _ _).filter _).length_eq

/-- What is offered of a directory below the root is hidden if the directory is. -/
lemma hidden_offered {e : BrowseEntry} (hin : g.root <+: target)
    (he : e ∈ offered os s g target) :
    Hidden e.path ↔ Hidden (relativeText g.root target) := by
  obtain ⟨he, hb⟩ := List.mem_filter.mp he
  obtain ⟨n, -, hn⟩ := List.mem_filterMap.mp (List.mem_mergeSort.mp he)
  obtain ⟨hname, hpath⟩ := browseEntry_eq hn
  rw [hpath]
  exact hidden_entry hin (by rw [← hname]; exact hb)

lemma validatePageLimit_ok {u : Unit} :
    validatePageLimit limit = .ok u ↔ 1 ≤ limit ∧ limit ≤ PAGE_SIZE := by
  unfold validatePageLimit
  split
  · next h => simp [h]
  · next h => simp [h]

lemma browseRoot_ok {report : BrowseReport}
    (h : browseRoot os s root (some relativeDirectory) = .ok report) :
    ∃ g target, browseTarget s root relativeDirectory = .ok (g, target) ∧
      (report.entries.filter fun e => isRemotelyBrowsableName e.name) = offered os s g target := by
  obtain ⟨⟨g, target⟩, ht, h⟩ := bind_eq_ok.mp h
  cases h
  exact ⟨g, target, ht, rfl⟩

/-- **A page of a directory**, and when there is one. -/
lemma buildResultPage_ok {result : AgentFileBrowseResult}
    (h : buildResultPageLimited os s root relativeDirectory cursor limit = .ok result) :
    ∃ g target offset, Browses s root relativeDirectory cursor limit g target offset ∧
      result.entries = (((offered os s g target).drop offset).take limit).map remoteEntry := by
  unfold buildResultPageLimited at h
  obtain ⟨_, hl, h⟩ := bind_eq_ok.mp h
  obtain ⟨offset, ho, h⟩ := bind_eq_ok.mp h
  obtain ⟨report, hr, h⟩ := bind_eq_ok.mp h
  obtain ⟨g, target, ht, he⟩ := browseRoot_ok (mapError_eq_ok.mp hr)
  dsimp only at h
  rw [he] at h
  split at h
  · cases h
  · cases h
    exact ⟨g, target, offset, ⟨validatePageLimit_ok.mp hl, ho, ht⟩, rfl⟩

lemma exists_page (h : Browses s root relativeDirectory cursor limit g target offset)
    (hlen : offset ≤ (offered os s g target).length) :
    ∃ result, buildResultPageLimited os s root relativeDirectory cursor limit = .ok result ∧
      result.entries = (((offered os s g target).drop offset).take limit).map remoteEntry := by
  have hl : validatePageLimit limit = .ok () := validatePageLimit_ok.mpr h.limit
  unfold buildResultPageLimited browseRoot
  simp only [hl, h.cursor, Option.getD_some, h.target, bind, Except.bind, pure, Except.pure,
    Except.mapError]
  rw [if_neg (by exact Nat.not_lt.mpr hlen)]
  exact ⟨_, rfl, rfl⟩

/-- **A browse lists what is hidden** just if the directory it lists is. -/
lemma browse_iff : (∀ p ∈ shown os s root (.browse relativeDirectory cursor limit), ¬ Hidden p) ↔
    AsksForNothingHidden os s root (.browse relativeDirectory cursor limit) := by
  constructor
  · intro h g target offset hb hh
    by_contra hlt
    rw [← length_offered, Nat.not_le] at hlt
    obtain ⟨result, hr, he⟩ := exists_page hb hlt.le
    obtain ⟨e, rest, hpage⟩ : ∃ e rest, ((offered os s g target).drop offset).take limit =
        e :: rest := by
      refine List.exists_cons_of_ne_nil fun hnil => ?_
      rcases List.take_eq_nil_iff.mp hnil with hz | hz
      · have := hb.limit.1
        omega
      · have := List.drop_eq_nil_iff.mp hz
        omega
    have hmem : e ∈ offered os s g target :=
      List.mem_of_mem_drop (List.mem_of_mem_take (hpage ▸ List.mem_cons_self))
    refine h e.path ?_ ((hidden_offered (browseTarget_under hb.target) hmem).mpr hh)
    simp only [shown, hr, he, hpage, List.map_cons]
    exact List.mem_cons_self
  · intro h p hp hh
    simp only [shown] at hp
    split at hp
    · next result hr =>
      obtain ⟨g, target, offset, hb, he⟩ := buildResultPage_ok hr
      rw [he, List.map_map, List.mem_map] at hp
      obtain ⟨e, hmem, rfl⟩ := hp
      have hdrop := List.mem_of_mem_take hmem
      have hle := h g target offset hb
        ((hidden_offered (browseTarget_under hb.target) (List.mem_of_mem_drop hdrop)).mp hh)
      rw [← length_offered, ← List.drop_eq_nil_iff] at hle
      rw [hle] at hdrop
      cases hdrop
    · cases hp

/-! ### Searches -/

variable {lower : String → String} {x : Indexed} {r : SearchRequest}

/-- **A page of a search** is made of the first rows that match and may be shown. -/
lemma buildSearchResultPage_ok {result : AgentFileBrowseResult}
    (h : buildSearchResultPageLimited s lower root x r = .ok result) :
    ∃ ix q offset, Searches s root lower x r ix q offset ∧ result.entries =
      ((((((q.rows ix).drop offset).filter (q.hit s.tree)).take r.limit).map
        (·.toIndexedSearchEntry)).filter fun e => isRemotelyBrowsableName e.name).map
          remoteSearchEntry := by
  unfold buildSearchResultPageLimited at h
  obtain ⟨_, hl, h⟩ := bind_eq_ok.mp h
  obtain ⟨⟨generation, offset⟩, hc, h⟩ := bind_eq_ok.mp h
  obtain ⟨ix, hix, h⟩ := bind_eq_ok.mp h
  obtain ⟨page, hp, h⟩ := bind_eq_ok.mp h
  have hp := mapError_eq_ok.mp hp
  obtain ⟨hgen, -, q, hq⟩ := search_current hp
  rw [search_ok hq hgen] at hp
  cases hp
  cases h
  refine ⟨ix, q, offset, ⟨validatePageLimit_ok.mp hl, mapError_eq_ok.mp hix, hq,
    generation, hc, hgen⟩, ?_⟩
  rw [Paging.page_entries (by decide), (checkArgs_asked hq).1]
  rfl

lemma exists_searchPage {ix : FileIndex} {q : Search}
    (h : Searches s root lower x r ix q offset) :
    ∃ result, buildSearchResultPageLimited s lower root x r = .ok result := by
  have hl : validatePageLimit r.limit = .ok () := validatePageLimit_ok.mpr h.limit
  obtain ⟨generation, hc, hgen⟩ := h.cursor
  have hp := search_ok (o := offset) h.args hgen
  unfold buildSearchResultPageLimited
  simp only [hl, hc, h.index, hp, bind, Except.bind, pure, Except.pure, Except.mapError]
  exact ⟨_, rfl⟩

lemma Searches.unique {ix ix' : FileIndex} {q q' : Search} {offset' : ℕ}
    (h : Searches s root lower x r ix q offset) (h' : Searches s root lower x r ix' q' offset') :
    ix' = ix ∧ q' = q ∧ offset' = offset := by
  obtain ⟨_, hc, -⟩ := h.cursor
  obtain ⟨_, hc', -⟩ := h'.cursor
  rw [hc] at hc'
  have hi := h.index.symm.trans h'.index
  have ha := h.args.symm.trans h'.args
  cases hc'
  cases hi
  cases ha
  exact ⟨rfl, rfl, rfl⟩

/-- **A search lists what is hidden** just if it comes upon it under a name that may be shown. -/
lemma search_iff : (∀ p ∈ shown os s root (.search lower x r), ¬ Hidden p) ↔
    AsksForNothingHidden os s root (.search lower x r) := by
  constructor
  · intro h ix q offset hs row hrow hb
    obtain ⟨result, hr⟩ := exists_searchPage hs
    obtain ⟨ix', q', offset', hs', he⟩ := buildSearchResultPage_ok hr
    obtain ⟨rfl, rfl, rfl⟩ := hs.unique hs'
    refine h _ ?_
    simp only [shown, hr, he, List.map_map, List.mem_map, List.mem_filter]
    exact ⟨_, ⟨⟨row, hrow, rfl⟩, hb⟩, rfl⟩
  · intro h p hp
    simp only [shown] at hp
    split at hp
    · next result hr =>
      obtain ⟨ix, q, offset, hs, he⟩ := buildSearchResultPage_ok hr
      simp only [he, List.map_map, List.mem_map, List.mem_filter] at hp
      obtain ⟨e, ⟨⟨row, hrow, rfl⟩, hb⟩, rfl⟩ := hp
      exact h ix q offset hs row hrow hb
    · cases hp

/-! ### Transfers and documents -/

variable {path : String} {transferId roomId : Option String} {consent : Bool} {p : Path}

/-- **Which files are accepted for a transfer.** -/
lemma validateLocalTransferSource_ok :
    (∃ v, validateLocalTransferSource os s root path transferId roomId = .ok v ∧
      v.resolvedPath = p) ↔ ∃ g, Transferable s root path g p := by
  unfold validateLocalTransferSource
  constructor
  · rintro ⟨v, h, hp⟩
    simp only [bind_eq_ok, mapError_eq_ok] at h
    obtain ⟨_, hshape, g, hg, q, hq, nd, hnd, h⟩ := h
    split at h
    · cases h
    · next hl =>
      split at h
      · cases h
      · next hf =>
        split at h
        · cases h
        · cases h
          subst hp
          simp only [Bool.or_eq_true, Bool.not_eq_true', decide_eq_true_eq, not_or,
            Bool.not_eq_false] at hf
          obtain ⟨c, m, i, hget⟩ := Tree.isFile_iff.mp hf.1
          refine ⟨g, hshape, hg, hq, ⟨nd, hnd, by simpa using hl⟩, c, m, i, hget, ?_⟩
          rintro rfl
          exact hf.2 (by simp [metadataLen, hget])
  · rintro ⟨g, hshape, hg, hq, ⟨nd, hnd, hl⟩, c, m, i, hget, hc⟩
    have hf : s.tree.isFile p = true := Tree.isFile_iff.mpr ⟨c, m, i, hget⟩
    have hlen : metadataLen os s p ≠ 0 := by simpa [metadataLen, hget] using hc
    simp only [hshape, hg, hq, hnd, hl, hf, hlen, fileIdForPath, hget, bind, Except.bind,
      Except.mapError]
    exact ⟨_, rfl, rfl⟩

/-- **Which documents are read.** -/
lemma readDocument_ok : (∃ c, readDocument s root path consent = .ok (p, c)) ↔
    ∃ g, Readable s root path consent g p := by
  unfold readDocument
  constructor
  · rintro ⟨c, h⟩
    split at h
    · cases h
    · next hconsent =>
      obtain ⟨g, hg, h⟩ := bind_eq_ok.mp h
      obtain ⟨q, hq, h⟩ := bind_eq_ok.mp h
      split at h
      · next bytes m i hget =>
        split at h
        · cases h
        · next hlen =>
          cases h
          exact ⟨g, by simpa using hconsent, mapError_eq_ok.mp hg, mapError_eq_ok.mp hq,
            c, m, i, hget, Nat.not_lt.mp hlen⟩
      · cases h
      · cases h
  · rintro ⟨g, rfl, hg, hq, c, m, i, hget, hlen⟩
    refine ⟨c, ?_⟩
    simp only [Bool.not_true, Bool.false_eq_true, if_false]
    refine bind_eq_ok.mpr ⟨g, mapError_eq_ok.mpr hg, bind_eq_ok.mpr ⟨p, mapError_eq_ok.mpr hq, ?_⟩⟩
    simp only [hget, if_neg (Nat.not_lt.mpr hlen)]

lemma belowRoot_eq (h : PathGuard.new s.tree root = .ok g) :
    belowRoot s root p = [relativeText g.root p] := by
  unfold belowRoot
  rw [h]

lemma transfer_iff : (∀ p ∈ shown os s root (.transfer path transferId roomId), ¬ Hidden p) ↔
    AsksForNothingHidden os s root (.transfer path transferId roomId) := by
  constructor
  · intro h g p ht
    have hex : ∃ v, validateLocalTransferSource os s root path transferId roomId = .ok v ∧
        v.resolvedPath = p := validateLocalTransferSource_ok.mpr ⟨g, ht⟩
    obtain ⟨v, hv, rfl⟩ := hex
    refine h _ ?_
    simp only [shown, hv, belowRoot_eq ht.guard, List.mem_singleton]
  · intro h q hq
    simp only [shown] at hq
    split at hq
    · next v hv =>
      obtain ⟨g, ht⟩ := validateLocalTransferSource_ok.mp ⟨v, hv, rfl⟩
      rw [belowRoot_eq ht.guard, List.mem_singleton] at hq
      exact hq ▸ h g _ ht
    · cases hq

lemma extract_iff : (∀ p ∈ shown os s root (.extract path consent), ¬ Hidden p) ↔
    AsksForNothingHidden os s root (.extract path consent) := by
  constructor
  · intro h g p hr
    obtain ⟨c, hc⟩ := readDocument_ok.mpr ⟨g, hr⟩
    refine h _ ?_
    simp only [shown, hc, belowRoot_eq hr.guard, List.mem_singleton]
  · intro h q hq
    simp only [shown] at hq
    split at hq
    · next p c hc =>
      obtain ⟨g, hr⟩ := readDocument_ok.mp ⟨c, hc⟩
      rw [belowRoot_eq hr.guard, List.mem_singleton] at hq
      exact hq ▸ h g p hr
    · cases hq

/-- **Hidden files stay hidden** from just the requests that ask for nothing hidden. -/
theorem stays_hidden (os : Os) (s : Sys) (root : RawPath) (req : Request) :
    (∀ p ∈ shown os s root req, ¬ Hidden p) ↔ AsksForNothingHidden os s root req := by
  cases req with
  | browse relativeDirectory cursor limit => exact browse_iff
  | search lower x r => exact search_iff
  | transfer path transferId roomId => exact transfer_iff
  | extract path consent => exact extract_iff

/-- A managed root with a key, and a note among the passwords. -/
def withSecrets : Sys := .fresh
  [([⟨"root", by decide⟩], .dir 1), ([⟨"root", by decide⟩, ⟨"id.key", by decide⟩], .file [1] none 2),
    ([⟨"root", by decide⟩, ⟨"passwords", by decide⟩], .dir 3),
    ([⟨"root", by decide⟩, ⟨"passwords", by decide⟩, ⟨"bank.txt", by decide⟩], .file [2] none 4)]

/-- The directory of the passwords is listed, the key is accepted for a transfer, and the note
is read. -/
theorem not_stays_hidden : ¬ (∀ req, ∀ p ∈ shown .still withSecrets
      (Path.raw [⟨"root", by decide⟩]) req, ¬ Hidden p) ∧
    (¬ ∀ p ∈ shown .still withSecrets (Path.raw [⟨"root", by decide⟩])
      (.browse "passwords" none 200), ¬ Hidden p) ∧
    (¬ ∀ p ∈ shown .still withSecrets (Path.raw [⟨"root", by decide⟩])
      (.transfer "id.key" none none), ¬ Hidden p) ∧
    ¬ ∀ p ∈ shown .still withSecrets (Path.raw [⟨"root", by decide⟩])
      (.extract "passwords/bank.txt" true), ¬ Hidden p := by
  have hlist : ¬ ∀ p ∈ shown .still withSecrets (Path.raw [⟨"root", by decide⟩])
      (.browse "passwords" none 200), ¬ Hidden p := by decide +kernel
  exact ⟨fun h => hlist (h _), hlist, by decide +kernel, by decide +kernel⟩

end MouseKeeper.Desktop.RemoteView
