import MouseKeeper.FileEngine.Names

/-!
What one step of an item can do.

Every step of a batch is listed here once, with what the engine has made sure of just
before it. The properties of whole runs are derived from this list and not from the
executors.
-/

namespace MouseKeeper.FileEngine

open Posix Trace

/-- A directory made on the way, for the purpose given. -/
def MadeDir (purpose : Purpose) (s : Sys) (e : Effect) (s' : Sys) : Prop :=
  ∃ c d, Disk.MakesDir s.toDisk c d ∧ e = ⟨purpose, .fs c⟩ ∧ s' = { s with toDisk := d }

/-- A file written where none was or over an old one. -/
structure Wrote (raw : RawPath) (content : Content) (p : Path) (old : Option Content)
    (s s' : Sys) : Prop where
  place : s.tree.place raw = .ok p
  change : (Change.write p old content).Applies s.tree s'.tree
  rest : s'.tick = s.tick + 1 ∧ s'.journal = s.journal

/-- An entry that is no link, renamed. -/
structure Renamed (src dst : Path) (node : Node) (gone : Option Node) (s s' : Sys) : Prop where
  nolink : node.isSymlink = false
  change : (Change.rename src dst node gone).Applies s.tree s'.tree
  rest : s'.tick = s.tick + 1 ∧ s'.journal = s.journal

/-- What `README.md` holds is in the backup too, or there is none and that is marked. -/
def BackedUp (g : PathGuard) (id : String) (t : Tree) : Prop :=
  (∃ r q b m j m' j', t.realpath (join g.root "README.md") = .ok r ∧
    t.get r = some (.file b m j) ∧ t.place (join g.root (backupRelative id)) = .ok q ∧
    t.get q = some (.file b m' j')) ∨
  ∃ q m j, t.place (join g.root (absentRelative id)) = .ok q ∧ t.get q = some (.file [] m j) ∧
    (t.existsAt (join g.root "README.md") = false ∨
      t.realpath (join g.root "README.md") = .ok q)

/-- What is found at `dst` is the metadata of the trash operation, through a link. -/
def OnMetadata (g : PathGuard) (n : ℕ) (dst : Path) (t : Tree) : Prop :=
  ∃ m q, g.resolveForCreate t (metadataRelativePath (trashId n)) = .ok m ∧
    t.realpath m.raw = .ok q ∧ t.realpath dst.raw = .ok q ∧ t.isDir q = false

variable (g : PathGuard) (check : PrecheckResult)

/-- The steps of one item. -/
inductive ItemStep (s : Sys) : Effect → Sys → Prop
  | stateDir {e : Effect} {s' : Sys} (h : MadeDir .store s e s') : ItemStep s e s'
  | opened (p : Path) : ItemStep s ⟨.store, .opened p⟩ s
  | row (p : Path) (entry : JournalEntry) :
    ItemStep s ⟨.row, .appended p entry⟩ { s with journal := s.journal ++ [entry] }
  | recovered (p : Path) (entry : JournalEntry) :
    ItemStep s ⟨.recovered, .appended p entry⟩ { s with journal := s.journal ++ [entry] }
  | parent (id : String) {e : Effect} {s' : Sys} (h : MadeDir (.parent id) s e s') :
    ItemStep s e s'
  | moved (id : String) {src dst : Path} {node : Node} {gone : Option Node} {s' : Sys}
    (haction : check.action = .move)
    (hsrc : g.resolveExisting s.tree check.fromPath = .ok src)
    (hdst : g.resolveForCreate s.tree check.toPath = .ok dst)
    (hfree : s.tree.existsAt dst.raw = false) (h : Renamed src dst node gone s s') :
    ItemStep s ⟨.target .move id, .fs (.rename src dst node gone)⟩ s'
  | trashed (n : ℕ) {src dst : Path} {node : Node} {gone : Option Node} {s' : Sys}
    (haction : check.action = .trash)
    (hsrc : g.resolveExisting s.tree check.fromPath = .ok src)
    (hdst : g.resolveForCreate s.tree (trashedRelativePath (trashId n)) = .ok dst)
    (hfree : s.tree.existsAt dst.raw = false ∨ OnMetadata g n dst s.tree)
    (h : Renamed src dst node gone s s') :
    ItemStep s ⟨.target .trash (trashId n), .fs (.rename src dst node gone)⟩ s'
  | metadata (n : ℕ) {m p : Path} {content : Content} {s' : Sys}
    (hm : g.resolveForCreate s.tree (metadataRelativePath (trashId n)) = .ok m)
    (hfree : s.tree.existsAt m.raw = false) (h : Wrote m.raw content p none s s') :
    ItemStep s ⟨.metadata (trashId n), .fs (.write p none content)⟩ s'
  | createdDir (id : String) {p : Path} {s' : Sys} (haction : check.action = .createDir)
    (hp : g.resolveForCreate s.tree check.toPath = .ok p)
    (h : MadeDir (.target .createDir id) s ⟨.target .createDir id, .fs (.makeDir p)⟩ s') :
    ItemStep s ⟨.target .createDir id, .fs (.makeDir p)⟩ s'
  | createdFile (id : String) {p : Path} {s' : Sys} (haction : check.action = .createFile)
    (hp : g.resolveForCreate s.tree check.toPath = .ok p)
    (h : (Change.write p none []).Applies s.tree s'.tree)
    (hrest : s'.tick = s.tick + 1 ∧ s'.journal = s.journal) :
    ItemStep s ⟨.target .createFile id, .fs (.write p none [])⟩ s'
  | backup (ms i : ℕ) {r p : Path} {content : Content} {old : Option Content} {m : Option ℕ}
    {j : ℕ} {s' : Sys} (haction : check.action = .readmeWrite)
    (hr : s.tree.realpath (join g.root "README.md") = .ok r)
    (hfile : s.tree.get r = some (.file content m j))
    (h : Wrote (join g.root (backupRelative (opId ms i))) (if r = p then [] else content) p old
      s s') :
    ItemStep s ⟨.backup (opId ms i), .fs (.write p old (if r = p then [] else content))⟩ s'
  | absent (ms i : ℕ) {p : Path} {old : Option Content} {s' : Sys}
    (haction : check.action = .readmeWrite)
    (hr : s.tree.existsAt (join g.root "README.md") = false)
    (h : Wrote (join g.root (absentRelative (opId ms i))) [] p old s s') :
    ItemStep s ⟨.absent (opId ms i), .fs (.write p old [])⟩ s'
  | readme (ms i : ℕ) {p : Path} {content : String} {old : Option Content} {s' : Sys}
    (haction : check.action = .readmeWrite) (hcontent : check.content = some content)
    (hback : BackedUp g (opId ms i) s.tree)
    (h : Wrote (join g.root "README.md") (contentBytes content) p old s s') :
    ItemStep s ⟨.target .readmeWrite (opId ms i), .fs (.write p old (contentBytes content))⟩ s'

section Written

variable {g : PathGuard} {t t' : Tree} {relative : String} {p w : Path}

lemma resolveExisting_written (h : Tree.Written t t' w) (hp : g.resolveExisting t relative = .ok p) :
    g.resolveExisting t' relative = .ok p := by
  rw [PathGuard.resolveExisting_ok] at hp ⊢
  exact ⟨h.realpath hp.1, hp.2⟩

lemma resolveForCreate_written (h : Tree.Written t t' w)
    (hp : g.resolveForCreate t relative = .ok p) : g.resolveForCreate t' relative = .ok p := by
  rw [PathGuard.resolveForCreate_ok] at hp ⊢
  obtain ⟨⟨parent, r, n, hparent, hr, hrest⟩, hs⟩ := hp
  exact ⟨⟨parent, r, n, hparent, h.realpath hr, hrest⟩, hs⟩

end Written

lemma resolveExisting_grown {g : PathGuard} {t t' : Tree} {relative : String} {p : Path}
    (h : Disk.Grown t t') (hp : g.resolveExisting t relative = .ok p) :
    g.resolveExisting t' relative = .ok p := by
  rw [PathGuard.resolveExisting_ok] at hp ⊢
  exact ⟨h.walks hp.1, hp.2⟩

lemma resolveForCreate_grown {g : PathGuard} {t t' : Tree} {relative : String} {p : Path}
    (h : Disk.Grown t t') (hp : g.resolveForCreate t relative = .ok p) :
    g.resolveForCreate t' relative = .ok p := by
  rw [PathGuard.resolveForCreate_ok] at hp ⊢
  obtain ⟨⟨parent, r, n, hparent, hr, hrest⟩, hs⟩ := hp
  exact ⟨⟨parent, r, n, hparent, h.walks hr, hrest⟩, hs⟩

lemma existsAt_grown {t t' : Tree} {raw : RawPath} (h : Disk.Grown t t')
    (hx : t.existsAt raw = true) : t'.existsAt raw = true := by
  obtain ⟨q, hq⟩ := Tree.existsAt_iff.mp hx
  exact Tree.existsAt_iff.mpr ⟨q, h.walks hq⟩

/-! ### The executors take these steps only -/

variable {os : Os} {g check} {s : Sys} {store : JournalStore} {i : ℕ} {purpose : Purpose}

lemma follows_dirs {raw : RawPath} :
    Follows (MadeDir purpose) (fs purpose (Disk.createDirAll os.toKernel raw)) s :=
  follows_zoom Disk.follows_createDirAll (fun _ => rfl) fun _ c d' h => ⟨c, d', h, rfl, rfl⟩

/-- Opening the store takes steps of its own. -/
lemma storeSteps_openStore : Follows (fun s e s' => e.purpose = .store ∧ ItemStep g check s e s')
    (JournalStore.openStore os g.root) s := by
  unfold JournalStore.openStore
  refine follows_bind (follows_mapErr (follows_dirs.mono fun _ _ _ h => ⟨?_, .stateDir h⟩))
    fun _ _ _ => follows_check_bind fun p _ => follows_bind (follows_step fun _ _ _ h => ?_)
      fun _ _ _ => follows_pure _
  · obtain ⟨c, d, -, rfl, -⟩ := h
    rfl
  · cases h
    exact ⟨rfl, .opened p⟩

lemma follows_openStore :
    Follows (ItemStep g check) (JournalStore.openStore os g.root) s :=
  storeSteps_openStore.mono fun _ _ _ h => h.2

lemma follows_append {ε : Type} {entry : ℕ → JournalEntry} :
    Follows (ItemStep g check) (store.append os .row entry : Engine ε Unit) s :=
  follows_step fun _ _ _ h => by
    cases h
    exact .row _ _

lemma follows_executeCreateDir (haction : check.action = .createDir) :
    Follows (ItemStep g check) (executeCreateDir os g store check i) s := by
  unfold executeCreateDir
  refine follows_read_bind (follows_bind follows_append fun _ s₁ h₁ => follows_read_bind ?_)
  cases (JournalStore.ends_append.mp h₁)
  split
  · exact follows_pure _
  · next target ht =>
    refine follows_read_bind ?_
    split
    · exact follows_pure _
    · refine follows_bind (follows_mapErr ?_) fun _ _ _ => follows_bind follows_append
        fun _ _ _ => follows_pure _
      obtain ⟨r, n, rfl, hr⟩ := PathGuard.resolveForCreate_under ht
      refine follows_call fun c t hc => ?_
      obtain ⟨hd, rfl, hn, hget⟩ := Tree.mkdir_under hr hc
      exact .createdDir _ haction ht ⟨_, _, ⟨_, _, rfl, by simp, hn, by simpa using hd, hget, rfl⟩,
        rfl, rfl⟩

lemma follows_executeCreateFile (haction : check.action = .createFile) :
    Follows (ItemStep g check) (executeCreateFile os g store check i) s := by
  unfold executeCreateFile
  refine follows_read_bind (follows_bind follows_append fun _ s₁ h₁ => ?_)
  cases (JournalStore.ends_append.mp h₁)
  split
  · exact follows_pure _
  · refine follows_read_bind ?_
    split
    · exact follows_pure _
    · next target ht =>
      refine follows_attempt_bind ?_ ?_
      · obtain ⟨r, n, rfl, hr⟩ := PathGuard.resolveForCreate_under ht
        refine follows_call fun c t hc => ?_
        have happlies := Tree.createNew_applies hc
        obtain ⟨-, rfl, -⟩ := Tree.createNew_under hr hc
        exact .createdFile _ haction ht happlies ⟨rfl, rfl⟩
      · split
        · exact follows_bind follows_append fun _ _ _ => follows_pure _
        · refine follows_read_bind ?_
          split
          · exact follows_pure _
          · exact follows_throw _

/-- A rename from one place of the guard's to another at which nothing is found. -/
lemma renamed_of_rename (s : Sys) {src dst : Path} {c : Change} {t : Tree}
    (hsrc : s.tree.Solid src)
    (hdst : ∃ r n, dst = r ++ [n] ∧ s.tree.Solid r)
    (h : s.tree.rename src.raw dst.raw = .ok (c, t)) :
    ∃ node gone, c = .rename src dst node gone ∧
      Renamed src dst node gone s { s with tree := t, tick := s.tick + 1 } := by
  have happlies := Tree.rename_applies h
  obtain ⟨nd, hnd, hl⟩ := hsrc
  obtain ⟨r, n, rfl, hr⟩ := hdst
  obtain ⟨-, node, hnode, ⟨-, rfl, -⟩ | ⟨-, -, rfl, -⟩⟩ :=
    Tree.rename_resolved (by rw [hnd]; simp) hr h
  all_goals
    rw [hnd] at hnode
    cases hnode
    exact ⟨_, _, rfl, hl, happlies, rfl, rfl⟩

lemma follows_executeMove (haction : check.action = .move) :
    Follows (ItemStep g check) (executeMove os g store check i) s := by
  unfold executeMove
  refine follows_read_bind (follows_bind follows_append fun _ s₁ h₁ => follows_read_bind ?_)
  cases (JournalStore.ends_append.mp h₁)
  split
  · exact follows_pure _
  · next source hsrc =>
    dsimp only
    split
    · exact follows_throw _
    · refine follows_bind (follows_mapErr (follows_dirs.mono fun _ _ _ h => .parent _ h))
        fun _ s₂ h₂ => follows_check_bind fun dst hdst => follows_read_bind ?_
      rw [ends_mapErr, ends_fs] at h₂
      obtain ⟨d, hd, rfl⟩ := h₂
      have hdst := mapError_eq_ok.mp hdst
      have hsrc := resolveExisting_grown (Disk.grown_of_ends hd) hsrc
      split
      · exact follows_pure _
      · next hfree =>
        refine follows_bind (follows_mapErr (follows_call fun c t hc => ?_))
          fun _ _ _ => follows_bind follows_append fun _ _ _ => follows_pure _
        have hentry := PathGuard.resolveExisting_entry hsrc
        have hunder := PathGuard.resolveForCreate_under hdst
        obtain ⟨node, gone, rfl, h⟩ := renamed_of_rename _ hentry hunder hc
        exact .moved _ haction hsrc hdst (by simpa using hfree) h

/-- The backup is made by these steps, and is there when they are done. -/
lemma follows_backupReadme (ms : ℕ) (haction : check.action = .readmeWrite) :
    Follows (ItemStep g check) (backupReadme os g (opId ms i)) s := by
  unfold backupReadme
  simp only [parent_backup g.root (not_slash_opId ms i)]
  refine follows_bind (follows_mapErr (follows_dirs.mono fun _ _ _ h => .parent _ h))
    fun _ s₁ h₁ => follows_read_bind ?_
  split
  · refine follows_mapErr (follows_call fun c t hc => ?_)
    obtain ⟨r, q, b, m, j, hr, hb, hq, hw⟩ := Tree.copy_ok hc
    have happlies := Tree.write_applies hw
    obtain ⟨q', old, j', hq', rfl, -⟩ := Tree.write_ok hw
    rw [hq] at hq'
    cases hq'
    exact .backup ms i haction hr hb ⟨hq, happlies, rfl, rfl⟩
  · next hnone =>
    refine follows_mapErr (follows_call fun c t hc => ?_)
    have happlies := Tree.write_applies hc
    obtain ⟨q, old, j', hq, rfl, -⟩ := Tree.write_ok hc
    exact .absent ms i haction (by simpa using hnone) ⟨hq, happlies, rfl, rfl⟩

lemma backedUp_of_ends {ms : ℕ} {u : Unit} {s' : Sys}
    (h : Ends (backupReadme os g (opId ms i)) s u s') : BackedUp g (opId ms i) s'.tree := by
  unfold backupReadme at h
  simp only [parent_backup g.root (not_slash_opId ms i)] at h
  obtain ⟨_, s₁, -, h₁⟩ := ends_bind.mp h
  obtain ⟨_, _, hread, h₂⟩ := ends_bind.mp h₁
  obtain ⟨rfl, rfl⟩ := ends_read.mp hread
  split at h₂
  · rw [ends_mapErr, ends_fs] at h₂
    obtain ⟨d, hd, rfl⟩ := h₂
    obtain ⟨c, t, hc, rfl⟩ := Disk.ends_call.mp hd
    obtain ⟨r, q, b, m, j, hr, hb, hq, hw⟩ := Tree.copy_ok hc
    have hwritten := Tree.write_written hw hq
    obtain ⟨q', old, j', hq', rfl, -, hget⟩ := Tree.write_ok hw
    rw [hq] at hq'
    cases hq'
    refine .inl ⟨r, q, if r = q then [] else b, ?_⟩
    have hread : ∃ m' j', t.get r = some (.file (if r = q then [] else b) m' j') := by
      by_cases hrq : r = q
      · exact ⟨_, j', by rw [hget, if_pos hrq]⟩
      · exact ⟨m, j, by rw [hget, if_neg hrq, if_neg hrq, hb]⟩
    obtain ⟨m', j'', hread⟩ := hread
    exact ⟨m', j'', _, j', hwritten.realpath hr, hread, hwritten.place hq,
      by rw [hget, if_pos rfl]⟩
  · next hnone =>
    rw [ends_mapErr, ends_fs] at h₂
    obtain ⟨d, hd, rfl⟩ := h₂
    obtain ⟨c, t, hc, rfl⟩ := Disk.ends_call.mp hd
    obtain ⟨q, old, j', hq, rfl, -, hget⟩ := Tree.write_ok hc
    have hwritten := Tree.write_written hc hq
    refine .inr ⟨q, _, j', hwritten.place hq, by rw [hget, if_pos rfl], ?_⟩
    cases hr : t.realpath (join g.root "README.md") with
    | error e => exact .inl (by simp [Tree.existsAt, hr, Except.isOk, Except.toBool])
    | ok r =>
      rcases hwritten.realpath_back hr with hr' | rfl
      · exact absurd (by simp [Tree.existsAt, hr', Except.isOk, Except.toBool]) hnone
      · exact .inr rfl

lemma follows_executeReadmeWrite (haction : check.action = .readmeWrite) :
    Follows (ItemStep g check) (executeReadmeWrite os g store check i) s := by
  unfold executeReadmeWrite
  refine follows_ite (fun _ => follows_pure _) fun _ => ?_
  cases hcontent : check.content with
  | none => exact follows_pure _
  | some content =>
    refine follows_read_bind ?_
    dsimp only
    refine follows_bind (follows_backupReadme (unixMs os s) haction) fun _ s₁ h₁ =>
      follows_bind follows_append fun _ s₂ h₂ => ?_
    cases JournalStore.ends_append.mp h₂
    refine follows_bind (follows_mapErr (follows_call fun c t hc => ?_))
      fun _ _ _ => follows_bind follows_append fun _ _ _ => follows_pure _
    have happlies := Tree.write_applies hc
    have hback := backedUp_of_ends h₁
    obtain ⟨q, old, j', hq, rfl, -⟩ := Tree.write_ok hc
    exact .readme _ i haction hcontent hback ⟨hq, happlies, rfl, rfl⟩

lemma trashFree_ok {t : Tree} {relative : String} {p : Path} :
    trashFree g t relative = .ok p ↔
      g.resolveForCreate t relative = .ok p ∧ t.existsAt p.raw = false := by
  unfold trashFree
  simp only [bind_eq_ok, mapError_eq_ok]
  constructor
  · rintro ⟨q, hq, h⟩
    split at h
    · cases h
    · next hfree => cases h; exact ⟨hq, by simpa using hfree⟩
  · rintro ⟨hq, hfree⟩
    exact ⟨p, hq, by simp [hfree]⟩

lemma trashSource_ok {t : Tree} {relative : String} {p : Path} {n : ℕ} {m : Option ℕ}
    (h : trashSource g t relative = .ok (p, n, m)) :
    g.resolveExisting t relative = .ok p ∧
      ∃ c j, t.lstat (join g.root relative) = .ok (.file c m j) ∧ n = c.length := by
  unfold trashSource at h
  simp only [bind_eq_ok, mapError_eq_ok] at h
  obtain ⟨q, hq, nd, hnd, h⟩ := h
  cases nd with
  | symlink _ => cases h
  | dir _ => cases h
  | file c m' j => cases h; exact ⟨hq, c, j, hnd, rfl⟩

/-- Both ends of a trash call's rename are still what the guard made of them: directories, a
row and the metadata have been added, and that is all. -/
lemma trash_ends {path trashed : String} {src dst md : Path} {size : ℕ} {modified : Option ℕ}
    {s₁ : Sys} {d d' : Disk} {raw : RawPath} {json : Content} {k : Kernel}
    (hsrc : trashSource g s.tree path = .ok (src, size, modified))
    (h₁ : Ends (JournalStore.openStore os g.root) s store s₁)
    (hd : Ends (Disk.createDirAll k raw) s₁.toDisk () d)
    (hdst : trashFree g d.tree trashed = .ok dst) (hd' : Ends (Disk.write k md.raw json) d () d') :
    g.resolveExisting d'.tree path = .ok src ∧ g.resolveForCreate d'.tree trashed = .ok dst := by
  obtain ⟨d₁, p₁, hd₁, -, -, rfl⟩ := JournalStore.ends_openStore.mp h₁
  obtain ⟨c, t, hc, rfl⟩ := Disk.ends_call.mp hd'
  obtain ⟨q, old, j, hq, -⟩ := Tree.write_ok hc
  have hw := Tree.write_written hc hq
  have hsrc := resolveExisting_grown (Disk.grown_of_ends hd)
    (resolveExisting_grown (Disk.grown_of_ends hd₁) (trashSource_ok hsrc).1)
  exact ⟨resolveExisting_written hw hsrc, resolveForCreate_written hw (trashFree_ok.mp hdst).1⟩

lemma follows_trashFile (haction : check.action = .trash) (hdir : s.tree.isDir g.root = true) :
    Follows (ItemStep g check) (trashFile os g.root.raw check.fromPath) s := by
  unfold trashFile
  refine follows_check_bind fun g' hg => ?_
  rw [mapError_eq_ok, new_root hdir] at hg
  cases hg
  refine follows_check_bind fun ⟨source, size, modified⟩ hsource => ?_
  refine follows_bind (follows_mapErr follows_openStore) fun store s₁ h₁ =>
    follows_read_bind (follows_read_bind ?_)
  refine follows_bind follows_append fun _ s₂ h₂ => ?_
  refine follows_bind (follows_mapErr (follows_dirs.mono fun _ _ _ h => .parent _ h))
    fun _ s₃ h₃ => follows_check_bind fun trashed htrashed => follows_check_bind fun md hmd => ?_
  cases JournalStore.ends_append.mp h₂
  rw [ends_mapErr, ends_fs] at h₃
  obtain ⟨d₃, hd₃, rfl⟩ := h₃
  obtain ⟨hmd, hmfree⟩ := trashFree_ok.mp hmd
  refine follows_bind (follows_mapErr (follows_call fun c t hc => ?_)) fun _ s₄ h₄ => ?_
  · have happlies := Tree.write_applies hc
    obtain ⟨q, old, j, hq, rfl, hold, -⟩ := Tree.write_ok hc
    rcases hold with ⟨rfl, -⟩ | ⟨b, m, -, hn⟩
    · exact .metadata _ hmd hmfree ⟨hq, happlies, rfl, rfl⟩
    · rw [Tree.free_of_not_exists hq hmfree] at hn
      cases hn
  · rw [ends_mapErr, ends_fs] at h₄
    obtain ⟨d₄, hd₄, rfl⟩ := h₄
    obtain ⟨hsrc, hdst⟩ := trash_ends hsource (ends_mapErr.mp h₁) hd₃ htrashed hd₄
    have htfree := (trashFree_ok.mp htrashed).2
    obtain ⟨c, t, hc, rfl⟩ := Disk.ends_call.mp hd₄
    refine follows_bind (follows_mapErr (follows_call fun c' t' hc' => ?_))
      fun _ _ _ => follows_bind follows_append fun _ _ _ => follows_pure _
    obtain ⟨q, old, j, hq, -⟩ := Tree.write_ok hc
    have hw := Tree.write_written hc hq
    obtain ⟨node, gone, rfl, h⟩ := renamed_of_rename ⟨⟨t, _⟩, _⟩
      (PathGuard.resolveExisting_entry hsrc) (PathGuard.resolveForCreate_under hdst) hc'
    refine .trashed _ haction hsrc hdst ?_ h
    cases hr : t.realpath trashed.raw with
    | error e => exact .inl (by simp [Tree.existsAt, hr, Except.isOk, Except.toBool])
    | ok r =>
      rcases hw.realpath_back hr with hr' | rfl
      · rw [Tree.existsAt_iff.mpr ⟨r, hr'⟩] at htfree
        cases htfree
      · obtain ⟨nd, hnd, -⟩ := hw.solid
        exact .inr ⟨md, r, resolveForCreate_written hw hmd,
          Tree.realpath_of_place (hw.place hq) (by rw [hnd]; simp), hr, hw.notDir'⟩

lemma follows_recoverPlannedMove {prior : List JournalEntry} :
    Follows (ItemStep g check) (recoverPlannedMove os g prior store check) s := by
  unfold recoverPlannedMove
  refine follows_ite (fun _ => follows_pure _) fun _ => ?_
  split
  · exact follows_pure _
  · refine follows_read_bind (follows_ite (fun _ => ?_) fun _ => follows_pure _)
    refine follows_bind (follows_step fun _ _ _ h => ?_) fun _ _ _ => follows_pure _
    cases h
    exact .recovered _ _

lemma follows_executeReady (hdir : s.tree.isDir g.root = true) :
    Follows (ItemStep g check) (executeReady os g store check i) s := by
  unfold executeReady
  split
  · next h => exact follows_executeMove h
  · next h =>
    exact follows_bind (follows_mapErr (follows_trashFile h hdir)) fun _ _ _ => follows_pure _
  · next h => exact follows_executeCreateDir h
  · next h => exact follows_executeCreateFile h
  · next h => exact follows_executeReadmeWrite h

/-- **Steps of an item.** An item does nothing but what is listed. -/
theorem follows_executeCheck {prior : List JournalEntry} {tally : Tally}
    (hdir : s.tree.isDir g.root = true) :
    Follows (ItemStep g check) (executeCheck os g prior store i check tally) s := by
  unfold executeCheck
  refine follows_ite (fun _ => ?_) fun _ => ?_
  · refine follows_bind follows_recoverPlannedMove fun r _ _ => ?_
    cases r <;> exact follows_pure _
  · refine follows_bind (follows_executeReady hdir) fun r _ _ => ?_
    cases r <;> exact follows_pure _

/-! ### The root stays -/

lemma not_isDir_of_not_exists {t : Tree} {p : Path} (h : t.existsAt p.raw = false) :
    t.isDir p = false := by
  rw [Bool.eq_false_iff]
  intro hd
  rw [Tree.existsAt_iff.mpr ⟨p, Tree.realpath_raw_dir hd⟩] at h
  cases h

lemma OnMetadata.not_isDir {n : ℕ} {dst : Path} {t : Tree} (h : OnMetadata g n dst t) :
    t.isDir dst = false := by
  obtain ⟨m, q, -, -, hq, hd⟩ := h
  rw [Bool.eq_false_iff]
  intro hdst
  rw [Tree.realpath_raw_dir hdst] at hq
  cases hq
  rw [hd] at hdst
  cases hdst

lemma MadeDir.grown {e : Effect} {s' : Sys} (h : MadeDir purpose s e s') :
    Disk.Grown s.tree s'.tree := by
  obtain ⟨c, d, hc, -, rfl⟩ := h
  exact hc.grown

/-- `README.md` in the root is no link. -/
def ReadmeNoLink (g : PathGuard) (t : Tree) : Prop :=
  ∀ target, t.get (g.root ++ [readmeName]) ≠ some (.symlink target)

/-- The root is still a directory, and `README.md` no link if it was none. -/
def RootKept (g : PathGuard) (t t' : Tree) : Prop :=
  t'.isDir g.root = true ∧ (ReadmeNoLink g t → ReadmeNoLink g t')

section RootKept

variable {t t' : Tree}

lemma RootKept.grown (hdir : t.isDir g.root = true) (h : Disk.Grown t t') : RootKept g t t' := by
  refine ⟨h.isDir hdir, fun hreadme target ht => ?_⟩
  rcases h (g.root ++ [readmeName]) with he | ⟨-, i, hi⟩
  · exact hreadme target (he ▸ ht)
  · rw [hi] at ht
    cases ht

lemma RootKept.write {p : Path} {old : Option Content} {new : Content}
    (hdir : t.isDir g.root = true) (h : (Change.write p old new).Applies t t') :
    RootKept g t t' := by
  refine ⟨h.isDir_write.trans hdir, fun hreadme target ht => ?_⟩
  obtain ⟨m, i, -, hget⟩ := h
  rw [hget] at ht
  split at ht
  · cases ht
  · exact hreadme target ht

/-- An entry that is no link renamed to a place in the root that is no directory. -/
lemma RootKept.rename {src dst : Path} {node : Node} {gone : Option Node}
    (hdir : t.isDir g.root = true) (h : (Change.rename src dst node gone).Applies t t')
    (hl : node.isSymlink = false) (hdst : g.root <+: dst) (hd : t.isDir dst = false) :
    RootKept g t t' := by
  obtain ⟨hnode, ⟨-, -, rfl⟩ | ⟨hne, -, -, -, -, hget⟩⟩ := id h
  · exact ⟨hdir, id⟩
  refine ⟨h.isDir_rename hd hdir fun hp => hne (hp.trans hdst), fun hreadme target ht => ?_⟩
  rw [hget] at ht
  split at ht
  · next hp =>
    -- below the root there is nothing but the name itself
    rcases List.prefix_concat_iff.mp hp with rfl | hp'
    · rw [List.drop_length, List.append_nil, hnode] at ht
      cases ht
      cases hl
    · have : dst = g.root := hp'.eq_of_length (le_antisymm hp'.length_le hdst.length_le)
      rw [this, hdir] at hd
      cases hd
  · split at ht
    · cases ht
    · exact hreadme target ht

end RootKept

/-- **The root stays.** No step of an item takes the root away or makes `README.md` a link. -/
theorem ItemStep.rootKept {e : Effect} {s' : Sys} (h : ItemStep g check s e s')
    (hdir : s.tree.isDir g.root = true) : RootKept g s.tree s'.tree := by
  cases h with
  | stateDir hd => exact .grown hdir hd.grown
  | opened | row | recovered => exact ⟨hdir, id⟩
  | parent id hd => exact .grown hdir hd.grown
  | moved id haction hsrc hdst hfree hr =>
    exact .rename hdir hr.change hr.nolink (PathGuard.resolveForCreate_inside hdst)
      (not_isDir_of_not_exists hfree)
  | trashed n haction hsrc hdst hfree hr =>
    refine .rename hdir hr.change hr.nolink (PathGuard.resolveForCreate_inside hdst) ?_
    rcases hfree with hfree | hfree
    · exact not_isDir_of_not_exists hfree
    · exact hfree.not_isDir
  | metadata n hm hfree hw => exact .write hdir hw.change
  | createdDir id haction hp hd => exact .grown hdir hd.grown
  | createdFile id haction hp hw hrest => exact .write hdir hw
  | backup ms i haction hr hfile hw => exact .write hdir hw.change
  | absent ms i haction hr hw => exact .write hdir hw.change
  | readme ms i haction hcontent hback hw => exact .write hdir hw.change

/-- A program of such steps keeps the root. -/
lemma rootKept_of_ends (check : PrecheckResult) {ε α : Type} {m : Engine ε α} {a : α} {s' : Sys}
    (h : s.tree.isDir g.root = true → Follows (ItemStep g check) m s) (he : Ends m s a s')
    (hdir : s.tree.isDir g.root = true) : RootKept g s.tree s'.tree := by
  refine (h hdir).ends (I := fun s' => RootKept g s.tree s'.tree) he ?_ ⟨hdir, id⟩
  intro a e b ha hab
  have := hab.rootKept ha.1
  exact ⟨this.1, this.2 ∘ ha.2⟩

/-! ### The batch -/

/-- A step of some item. -/
def BatchStep (g : PathGuard) (s : Sys) (e : Effect) (s' : Sys) : Prop :=
  ∃ check, ItemStep g check s e s'

lemma BatchStep.isDir {e : Effect} {s' : Sys} (h : BatchStep g s e s')
    (hdir : s.tree.isDir g.root = true) : s'.tree.isDir g.root = true := by
  obtain ⟨check, h⟩ := h
  exact (h.rootKept hdir).1

lemma follows_loop_checks {prior : List JournalEntry} {checks : List PrecheckResult}
    {tally : Tally} (hdir : s.tree.isDir g.root = true) :
    Follows (BatchStep g) (Prog.loop (executeCheck os g prior store) checks i tally) s := by
  refine follows_loop (Q := fun _ _ _ => True) (I := fun s => s.tree.isDir g.root = true) hdir
    (AtEach.of_forall fun _ _ _ => trivial) (fun i check tally s _ hs _ => ?_) fun _ _ _ ha h =>
    h.isDir ha
  exact (follows_executeCheck hs).mono fun _ _ _ h => ⟨check, h⟩

/-- **Steps of a batch.** A call does nothing but what is listed. -/
theorem follows_executeProposals {root : RawPath} {report : ProposalReport}
    (hg : PathGuard.new s.tree root = .ok g) :
    Follows (BatchStep g) (executeProposals os root report) s := by
  unfold executeProposals
  refine follows_check_bind fun g' hg' => ?_
  rw [mapError_eq_ok, hg] at hg'
  cases hg'
  refine follows_check_bind fun precheck _ => ?_
  have hopen : Follows (ItemStep g ⟨.move, "", "", none, .ready, none⟩)
      (JournalStore.openStore os g.root) s := follows_openStore
  refine follows_bind (follows_mapErr (hopen.mono fun _ _ _ h => ⟨_, h⟩)) fun store s₁ h₁ =>
    follows_read_bind (follows_bind ?_ fun _ _ _ => follows_pure _)
  exact follows_loop_checks ((JournalStore.grown_openStore (ends_mapErr.mp h₁)).isDir
    (new_ok hg).2)

end MouseKeeper.FileEngine
