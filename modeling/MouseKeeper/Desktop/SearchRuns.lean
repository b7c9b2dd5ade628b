import MouseKeeper.Desktop.SearchCursors

/-!
A search that is followed over its pages.

Each page is asked for with the cursor of the one before it, from the index as that one has left
it. A path is listed on one of them exactly if the index has a row of it that the search selects,
that still stands on the disk and whose name may be shown.
-/

namespace MouseKeeper.Desktop.RemoteView

open Posix FileEngine

section Pages

variable (s : Sys) (lower : String → String) (root : RawPath)

/-- The pages of a search, each asked for with the cursor of the one before it. -/
inductive Followed : Indexed → SearchRequest → List AgentFileBrowseResult → Prop
  | last {x r result} (h : buildSearchResultPageLimited s lower root x r = .ok result)
    (hn : result.nextCursor = none) : Followed x r [result]
  | more {x r result c ix results} (h : buildSearchResultPageLimited s lower root x r = .ok result)
    (hn : result.nextCursor = some c) (hi : ensureIndex s lower root x = .ok ix)
    (hs : Followed { x with index := ix } { r with cursor := some c } results) :
    Followed x r (result :: results)

/-- A search lists a path on one of its pages. -/
def Lists (x : Indexed) (r : SearchRequest) (path : String) : Prop :=
  ∃ results, Followed s lower root x r results ∧
    ∃ result ∈ results, ∃ e ∈ result.entries, e.relativePath = path

end Pages

variable {s : Sys} {lower : String → String} {root : RawPath} {x : Indexed} {r : SearchRequest}
  {ix : FileIndex} {q : Search} {offset next : ℕ}

/-- An index that is there is not built again. -/
lemma ensureIndex_again (h : ensureIndex s lower root x = .ok ix) :
    ensureIndex s lower root { x with index := ix } = .ok ix := by
  obtain ⟨g, hg, h⟩ := bind_eq_ok.mp h
  have hinit : ix.initialized = true := by
    split at h
    · rename_i hi
      cases h
      exact hi
    · simp only [reindexRoot] at h
      split at h
      · split at h
        · obtain ⟨n, -, h⟩ := bind_eq_ok.mp h
          cases h
          rfl
        · cases h
      · cases h
  exact bind_eq_ok.mpr ⟨g, hg, if_pos hinit⟩

lemma Searches.kept (hs : Searches s root lower x r ix q offset) (hx : x.Fits) :
    ({ x with index := ix } : Indexed).Fits :=
  ⟨(hs.fits hx).1, (hs.fits hx).2, hx.found⟩

/-- The search that the cursor of a page asks for. -/
lemma Searches.goesOn (hs : Searches s root lower x r ix q offset) (hx : x.Fits)
    (hn : (Paging.page (q.hit s.tree) q.limit FETCH_BATCH (q.rows ix) offset).next = some next) :
    Searches s root lower { x with index := ix }
      { r with cursor := some (cursorText (searchFingerprint lower r) ix.generation next) }
      ix q next := by
  obtain ⟨hgen, hlen⟩ := hs.fits hx
  have hlt : next < (q.rows ix).length :=
    ((Paging.page_splits (q.hit s.tree) (by decide : 0 < FETCH_BATCH) (checkArgs_limit hs.args)
      (q.rows ix) offset).2 next hn).2.1
  have hle := length_rows_le q ix
  refine ⟨hs.limit, ensureIndex_again hs.index, hs.args, some ix.generation, ?_, fun g hg => ?_⟩
  · have hparse := parse_cursorText (searchFingerprint lower r) (searchFingerprint_lt lower r)
      (by omega : ix.generation < 2 ^ 64) (by omega : next < 2 ^ 64)
    rw [if_pos rfl] at hparse
    exact hparse
  · exact (Option.some.inj hg).symm

/-- What the pages show of rows. -/
def rendered (rows : List SearchRow) : List AgentFileBrowseEntry :=
  ((rows.map (·.toIndexedSearchEntry)).filter fun e => isRemotelyBrowsableName e.name).map
    remoteSearchEntry

lemma rendered_append (rows rows' : List SearchRow) :
    rendered (rows ++ rows') = rendered rows ++ rendered rows' := by
  simp [rendered]

lemma mem_rendered {rows : List SearchRow} {path : String} :
    (∃ e ∈ rendered rows, e.relativePath = path) ↔
      ∃ row ∈ rows, isRemotelyBrowsableName row.name = true ∧ row.relativePath = path := by
  simp only [rendered, List.mem_map, List.mem_filter]
  constructor
  · rintro ⟨_, ⟨_, ⟨⟨row, hrow, rfl⟩, hb⟩, rfl⟩, rfl⟩
    exact ⟨row, hrow, hb, rfl⟩
  · rintro ⟨row, hrow, hb, rfl⟩
    exact ⟨_, ⟨_, ⟨⟨row, hrow, rfl⟩, hb⟩, rfl⟩, rfl⟩

/-- One page of a search. -/
lemma Searches.page {result : AgentFileBrowseResult} (hs : Searches s root lower x r ix q offset)
    (h : buildSearchResultPageLimited s lower root x r = .ok result) :
    result.entries = rendered
      (Paging.page (q.hit s.tree) q.limit FETCH_BATCH (q.rows ix) offset).entries ∧
    result.nextCursor = (Paging.page (q.hit s.tree) q.limit FETCH_BATCH (q.rows ix) offset).next.map
      (cursorText (searchFingerprint lower r) ix.generation) := by
  obtain ⟨ix', q', offset', hs', he⟩ := buildSearchResultPage_ok h
  obtain ⟨rfl, rfl, rfl⟩ := hs.unique hs'
  obtain ⟨ix', q', offset', hs', hn, -⟩ := nextCursor_of_build h
  obtain ⟨rfl, rfl, rfl⟩ := hs.unique hs'
  refine ⟨?_, hn⟩
  rw [he, Paging.page_entries (by decide), (checkArgs_asked hs.args).1]
  rfl

/-- **The pages of a search make up the rows** that match and stand, as far as they may be
shown. -/
lemma Followed.entries {results : List AgentFileBrowseResult}
    (h : Followed s lower root x r results) (hs : Searches s root lower x r ix q offset)
    (hx : x.Fits) : results.flatMap (·.entries) =
      rendered (((q.rows ix).drop offset).filter (q.hit s.tree)) := by
  induction h generalizing offset with
  | @last x r result h hn =>
    obtain ⟨he, hn'⟩ := hs.page h
    rw [hn] at hn'
    have hall := (Paging.page_splits (q.hit s.tree) (by decide : 0 < FETCH_BATCH)
      (checkArgs_limit hs.args) (q.rows ix) offset).1 (Option.map_eq_none_iff.mp hn'.symm)
    simp only [List.flatMap_cons, List.flatMap_nil, List.append_nil, he, hall]
  | @more x r result c ix' results h hn hi _ ih =>
    obtain ⟨he, hn'⟩ := hs.page h
    obtain rfl := Except.ok.inj (hs.index.symm.trans hi)
    obtain ⟨next, hnext, rfl⟩ := Option.map_eq_some_iff.mp (hn'.symm.trans hn)
    obtain ⟨-, -, hsplit⟩ := (Paging.page_splits (q.hit s.tree) (by decide : 0 < FETCH_BATCH)
      (checkArgs_limit hs.args) (q.rows ix) offset).2 next hnext
    rw [List.flatMap_cons, he, ih (hs.goesOn hx hnext) (hs.kept hx), ← rendered_append, hsplit]

/-- Following the cursors comes to an end. -/
lemma Searches.exists_followed (hs : Searches s root lower x r ix q offset) (hx : x.Fits) :
    ∃ results, Followed s lower root x r results := by
  induction hk : (q.rows ix).length - offset using Nat.strong_induction_on
    generalizing x r offset with
  | _ k ih =>
    obtain ⟨result, h⟩ := exists_searchPage hs
    obtain ⟨-, hn⟩ := hs.page h
    cases hnext : (Paging.page (q.hit s.tree) q.limit FETCH_BATCH (q.rows ix) offset).next with
    | none =>
      rw [hnext] at hn
      exact ⟨_, .last h hn⟩
    | some next =>
      rw [hnext] at hn
      obtain ⟨hlt, hlen, -⟩ := (Paging.page_splits (q.hit s.tree) (by decide : 0 < FETCH_BATCH)
        (checkArgs_limit hs.args) (q.rows ix) offset).2 next hnext
      obtain ⟨results, hresults⟩ := ih _ (by omega) (hs.goesOn hx hnext) (hs.kept hx) rfl
      exact ⟨_, .more h hn hs.index hresults⟩

/-- **Which paths a search lists.** -/
lemma lists_iff (hx : x.Fits) (hi : ensureIndex s lower root x = .ok ix) (hc : r.cursor = none)
    {path : String} : Lists s lower root x r path ↔
      (1 ≤ r.limit ∧ r.limit ≤ PAGE_SIZE) ∧ ∃ q, checkArgs lower s.tree (r.args root) = .ok q ∧
        ∃ row ∈ ix.entries, selects q.scope q.directory q.query row = true ∧
          q.hit s.tree row = true ∧ isRemotelyBrowsableName row.name = true ∧
          row.relativePath = path := by
  have hrows : ∀ {results q offset}, Followed s lower root x r results →
      Searches s root lower x r ix q offset → offset = 0 →
      ((∃ result ∈ results, ∃ e ∈ result.entries, e.relativePath = path) ↔
        ∃ row ∈ ix.entries, selects q.scope q.directory q.query row = true ∧
          q.hit s.tree row = true ∧ isRemotelyBrowsableName row.name = true ∧
          row.relativePath = path) := by
    rintro results q _ hf hs rfl
    have hflat : (∃ result ∈ results, ∃ e ∈ result.entries, e.relativePath = path) ↔
        ∃ e ∈ results.flatMap (·.entries), e.relativePath = path := by
      simp only [List.mem_flatMap]
      exact ⟨fun ⟨result, hr, e, he, hp⟩ => ⟨e, ⟨result, hr, he⟩, hp⟩,
        fun ⟨e, ⟨result, hr, he⟩, hp⟩ => ⟨result, hr, e, he, hp⟩⟩
    rw [hflat, hf.entries hs hx, List.drop_zero, mem_rendered]
    simp only [(matching_hits q s.tree ix).all, and_assoc]
  have hstart : ∀ {q}, (1 ≤ r.limit ∧ r.limit ≤ PAGE_SIZE) →
      checkArgs lower s.tree (r.args root) = .ok q → Searches s root lower x r ix q 0 :=
    fun hl hq => ⟨hl, hi, hq, none, by rw [hc]; rfl, nofun⟩
  constructor
  · rintro ⟨results, hf, hp⟩
    obtain ⟨ix', q, offset, hs⟩ : ∃ ix' q offset, Searches s root lower x r ix' q offset := by
      cases hf with
      | last h hn =>
        obtain ⟨ix', q, offset, hs, -⟩ := buildSearchResultPage_ok h
        exact ⟨ix', q, offset, hs⟩
      | more h hn hi' hs' =>
        obtain ⟨ix', q, offset, hs, -⟩ := buildSearchResultPage_ok h
        exact ⟨ix', q, offset, hs⟩
    have hs₀ := hstart hs.limit hs.args
    exact ⟨hs.limit, q, hs.args, (hrows hf hs₀ rfl).mp hp⟩
  · rintro ⟨hl, q, hq, hrow⟩
    have hs := hstart hl hq
    obtain ⟨results, hf⟩ := hs.exists_followed hx
    exact ⟨results, hf, (hrows hf hs rfl).mpr hrow⟩

end MouseKeeper.Desktop.RemoteView
