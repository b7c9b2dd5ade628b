import MouseKeeper.FileEngine.FileIndex

/-!
Paging through a search loses nothing, and no cursor outlives a change of the index.
-/

namespace MouseKeeper.FileEngine

open Posix

variable (lower : String → String) (t : Tree)

/-! ### Changes -/

/-- The operations that change the index. -/
inductive IndexOp
  | reindex (files : List IndexedFile) (found : List IndexedSearchEntry)
  | upsert (relativePath : String) (sizeBytes : ℕ) (modifiedUnixMs : Option ℕ)
    (fileId : Option String)
  | remove (relativePath : String)
  | clear

def IndexOp.apply : IndexOp → FileIndex → Except FileIndexError FileIndex
  | .reindex files found => reindexRoot lower files found
  | .upsert path size mtime fileId => upsertFile lower path size mtime fileId
  | .remove path => removePath path
  | .clear => clearIndex

/-- An operation that fails is rolled back. -/
def IndexOp.runAll : List IndexOp → FileIndex → FileIndex
  | [], ix => ix
  | op :: ops, ix =>
    match op.apply lower ix with
    | .ok ix' => runAll ops ix'
    | .error _ => runAll ops ix

variable {lower t}

lemma bumpGeneration_ok {n m : ℕ} (h : bumpGeneration n = .ok m) : n < m := by
  unfold bumpGeneration at h
  split at h
  · cases h
    exact Nat.lt_succ_self n
  · cases h

/-- **Every change counts.** -/
lemma IndexOp.generation_lt {op : IndexOp} {ix ix' : FileIndex}
    (h : op.apply lower ix = .ok ix') : ix.generation < ix'.generation := by
  cases op with
  | reindex files found =>
    simp only [apply, reindexRoot] at h
    split at h
    · split at h
      · obtain ⟨g, hg, h⟩ := bind_eq_ok.mp h
        cases h
        exact bumpGeneration_ok hg
      · cases h
    · cases h
  | upsert path size mtime fileId =>
    simp only [apply, upsertFile] at h
    split at h
    · cases h
    · split at h
      · cases h
      · obtain ⟨g, hg, h⟩ := bind_eq_ok.mp h
        cases h
        exact bumpGeneration_ok hg
  | remove path =>
    obtain ⟨g, hg, h⟩ := bind_eq_ok.mp h
    cases h
    exact bumpGeneration_ok hg
  | clear =>
    obtain ⟨g, hg, h⟩ := bind_eq_ok.mp h
    cases h
    exact bumpGeneration_ok hg

/-- After any operations the index is as it was, or of a later generation. -/
lemma IndexOp.runAll_generation (ops : List IndexOp) (ix : FileIndex) :
    runAll lower ops ix = ix ∨ ix.generation < (runAll lower ops ix).generation := by
  induction ops generalizing ix with
  | nil => exact .inl rfl
  | cons op ops ih =>
    simp only [runAll]
    cases h : op.apply lower ix with
    | error e => exact ih ix
    | ok ix' =>
      have hlt := generation_lt h
      rcases ih ix' with hr | hr
      · simp only [hr]
        exact .inr hlt
      · exact .inr (Nat.lt_trans hlt hr)

/-! ### The order of the rows -/

lemma before_trans {a b c : SearchRow} (h : before a b) (h' : before b c) : before a c := by
  simp only [before, Bool.or_eq_true, Bool.and_eq_true, decide_eq_true_eq] at h h' ⊢
  rcases h with h | ⟨h, hp⟩ <;> rcases h' with h' | ⟨h', hp'⟩
  · exact .inl (lt_trans h h')
  · exact .inl (h' ▸ h)
  · exact .inl (h ▸ h')
  · exact .inr ⟨h.trans h', le_trans hp hp'⟩

lemma before_total (a b : SearchRow) : before a b || before b a := by
  simp only [before, Bool.or_eq_true, Bool.and_eq_true, decide_eq_true_eq]
  rcases lt_trichotomy a.normalizedName b.normalizedName with h | h | h
  · exact .inl (.inl h)
  · rcases le_total a.relativePath b.relativePath with hp | hp
    · exact .inl (.inr ⟨h, hp⟩)
    · exact .inr (.inr ⟨h.symm, hp⟩)
  · exact .inr (.inl h)

/-- The entries of the index that match a search and still stand on the disk, in order. -/
structure Matching (q : Search) (t : Tree) (ix : FileIndex) (rows : List SearchRow) : Prop where
  ordered : rows.Pairwise fun a b => before a b
  once : (rows.map (·.relativePath)).Nodup
  all : ∀ r, r ∈ rows ↔ r ∈ ix.entries ∧ selects q.scope q.directory q.query r = true ∧
    q.hit t r = true

lemma rows_ordered (q : Search) (ix : FileIndex) :
    (q.rows ix).Pairwise fun a b => before a b := by
  have h := @List.pairwise_mergeSort SearchRow before (fun _ _ _ h h' => before_trans h h')
    before_total (ix.entries.filter (selects q.scope q.directory q.query))
  exact h

lemma rows_once (q : Search) (ix : FileIndex) :
    ((q.rows ix).map (·.relativePath)).Nodup := by
  have hu : ((ix.entries.filter (selects q.scope q.directory q.query)).map
    (·.relativePath)).Nodup := unique_filter ix.uniqueEntries
  have hp : (q.rows ix).Perm (ix.entries.filter (selects q.scope q.directory q.query)) :=
    List.mergeSort_perm _ _
  exact (hp.map fun r => r.relativePath).nodup_iff.mpr hu

lemma matching_hits (q : Search) (t : Tree) (ix : FileIndex) :
    Matching q t ix ((q.rows ix).filter (q.hit t)) where
  ordered := (rows_ordered q ix).filter _
  once := unique_filter (rows_once q ix)
  all r := by
    rw [List.mem_filter, Search.rows, List.mem_mergeSort, List.mem_filter, and_assoc]

/-! ### Pages -/

variable (lower t) in
/-- The pages of a search, each from the cursor that the one before it has given. -/
inductive PageRun (ix : FileIndex) (a : SearchArgs) :
    Option ℕ → ℕ → List IndexedSearchPage → Prop
  | last {e o p} (h : searchIndexPageWithExtensions lower t ix a e o = .ok p)
    (hn : p.nextOffset = none) : PageRun ix a e o [p]
  | more {e o p o' ps} (h : searchIndexPageWithExtensions lower t ix a e o = .ok p)
    (hn : p.nextOffset = some o') (hs : PageRun ix a (some p.generation) o' ps) :
    PageRun ix a e o (p :: ps)

/-- No cursor, or one of the index as it is. -/
def Current (ix : FileIndex) (e : Option ℕ) : Prop := ∀ g ∈ e, g = ix.generation

variable {ix : FileIndex} {a : SearchArgs} {q : Search} {e : Option ℕ} {o : ℕ}

lemma checkArgs_asked (h : checkArgs lower t a = .ok q) : q.limit = a.limit ∧ 1 ≤ a.limit := by
  simp only [checkArgs] at h
  split at h
  · cases h
  · split at h
    · cases h
    · rename_i hl
      obtain ⟨_, _, h⟩ := bind_eq_ok.mp h
      obtain ⟨_, _, h⟩ := bind_eq_ok.mp h
      obtain ⟨_, _, h⟩ := bind_eq_ok.mp h
      obtain ⟨_, _, h⟩ := bind_eq_ok.mp h
      cases h
      exact ⟨rfl, by omega⟩

lemma checkArgs_limit (h : checkArgs lower t a = .ok q) : 0 < q.limit := by
  obtain ⟨he, hl⟩ := checkArgs_asked h
  omega

/-- A search with valid arguments and a current cursor is the page of its rows. -/
lemma search_ok (h : checkArgs lower t a = .ok q) (he : Current ix e) :
    searchIndexPageWithExtensions lower t ix a e o = .ok
      ⟨ix.generation, (Paging.page (q.hit t) q.limit FETCH_BATCH (q.rows ix) o).entries.map
        (·.toIndexedSearchEntry),
        (Paging.page (q.hit t) q.limit FETCH_BATCH (q.rows ix) o).next⟩ := by
  have hc : ¬ ∃ g ∈ e, g ≠ ix.generation := fun ⟨g, hg, hne⟩ => hne (he g hg)
  unfold searchIndexPageWithExtensions
  rw [h]
  exact if_neg hc

/-- A search that answers with a page is one of the index as it is. -/
lemma search_current {p : IndexedSearchPage}
    (h : searchIndexPageWithExtensions lower t ix a e o = .ok p) :
    Current ix e ∧ p.generation = ix.generation ∧ ∃ q, checkArgs lower t a = .ok q := by
  unfold searchIndexPageWithExtensions at h
  obtain ⟨q, hq, h⟩ := bind_eq_ok.mp h
  split at h
  · cases h
  · rename_i hc
    cases h
    refine ⟨fun g hg => ?_, rfl, q, hq⟩
    by_contra hne
    exact hc ⟨g, hg, hne⟩

/-- **The pages make up the hits** from the first row of the first page on. -/
lemma PageRun.entries {ps : List IndexedSearchPage} (hq : checkArgs lower t a = .ok q)
    (h : PageRun lower t ix a e o ps) : ps.flatMap (·.entries) =
      (((q.rows ix).drop o).filter (q.hit t)).map (·.toIndexedSearchEntry) := by
  induction h with
  | @last e o p h hn =>
    obtain ⟨he, -⟩ := search_current h
    rw [search_ok hq he] at h
    cases h
    have hs := (Paging.page_splits (q.hit t) (by decide : 0 < FETCH_BATCH)
      (checkArgs_limit hq) (q.rows ix) o).1 hn
    simp only [List.flatMap_cons, List.flatMap_nil, List.append_nil, hs]
  | @more e o p o' ps h hn _ ih =>
    obtain ⟨he, -⟩ := search_current h
    rw [search_ok hq he] at h
    cases h
    obtain ⟨-, -, hs⟩ := (Paging.page_splits (q.hit t) (by decide : 0 < FETCH_BATCH)
      (checkArgs_limit hq) (q.rows ix) o).2 o' hn
    rw [List.flatMap_cons, ih, ← hs, List.map_append]

/-- Following the cursors comes to an end. -/
lemma exists_pageRun (hq : checkArgs lower t a = .ok q) (he : Current ix e) :
    ∃ ps, PageRun lower t ix a e o ps := by
  induction hn : (q.rows ix).length - o using Nat.strong_induction_on generalizing e o with
  | _ n ih =>
    have hs := search_ok (o := o) hq he
    have hp := (Paging.page_splits (q.hit t) (by decide : 0 < FETCH_BATCH)
      (checkArgs_limit hq) (q.rows ix) o).2
    cases hnext : (Paging.page (q.hit t) q.limit FETCH_BATCH (q.rows ix) o).next with
    | none => exact ⟨_, .last hs hnext⟩
    | some o' =>
      obtain ⟨hlt, hlen, -⟩ := hp o' hnext
      obtain ⟨ps, hps⟩ := ih ((q.rows ix).length - o') (by omega) (e := some ix.generation)
        (o := o') (fun g hg => (Option.some.inj hg).symm) rfl
      exact ⟨_, .more hs hnext hps⟩

/-- What a search promises: its pages make up all the entries that match and still stand, in
order and each once; every change of the index is a later generation; and no page is given
for a cursor of before a change. -/
structure Pages (lower : String → String) (ix : FileIndex) (a : SearchArgs) : Prop where
  complete : ∀ t q e, checkArgs lower t a = .ok q → Current ix e →
    (∃ ps, PageRun lower t ix a e 0 ps) ∧ ∀ ps, PageRun lower t ix a e 0 ps →
      ∃ rows, Matching q t ix rows ∧
        ps.flatMap (·.entries) = rows.map (·.toIndexedSearchEntry)
  later : ∀ op ix', IndexOp.apply lower op ix = .ok ix' → ix.generation < ix'.generation
  rejected : ∀ ops, IndexOp.runAll lower ops ix = ix ∨ ∀ t o p,
    searchIndexPageWithExtensions lower t (IndexOp.runAll lower ops ix) a (some ix.generation) o ≠
      .ok p

/-- **Search paging loses nothing.** -/
theorem search_paging (lower : String → String) (ix : FileIndex) (a : SearchArgs) :
    Pages lower ix a where
  complete t q e hq he := by
    refine ⟨exists_pageRun hq he, fun ps hps => ⟨_, matching_hits q t ix, ?_⟩⟩
    rw [hps.entries hq, List.drop_zero]
  later op ix' h := op.generation_lt h
  rejected ops := by
    refine (IndexOp.runAll_generation ops ix).imp_right fun hlt t o p hp => ?_
    have hg := (search_current hp).1 _ rfl
    omega

end MouseKeeper.FileEngine
