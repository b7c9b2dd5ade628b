import MouseKeeper.Posix.Lookup

/-!
System calls.

Each call takes a tree and yields the changed tree together with a record of the change,
or an error and no change. What is read off the clock or drawn by the system (a
modification time, the number of a new entry) is an argument.
-/

namespace MouseKeeper.Posix

/-- What a call did. A write keeps the content it replaced, a rename the entry and what it
replaced, a removal the entry. -/
inductive Change
  | makeDir (p : Path)
  | write (p : Path) (old : Option Content) (new : Content)
  | rename (src dst : Path) (node : Node) (gone : Option Node)
  | remove (p : Path) (node : Node)
  deriving DecidableEq

/-- The places a change is about. -/
def Change.places : Change → List Path
  | .makeDir p => [p]
  | .write p _ _ => [p]
  | .rename src dst _ _ => [src, dst]
  | .remove p _ => [p]

namespace Tree

/-! ### Entries set, taken away and renamed -/

def set (t : Tree) (p : Path) (node : Node) : Option Tree :=
  if h : p ≠ [] ∧ t.isDir p.dropLast = true ∧ t.isDir p = false then
    some (t.put p.dropLast (p.getLast h.1) node h.2.1 (by rw [List.dropLast_append_getLast]; exact h.2.2))
  else none

def unset (t : Tree) (p : Path) : Option Tree :=
  if h : p ≠ [] ∧ t.childless p = true then
    some (t.erase p.dropLast (p.getLast h.1) (by rw [List.dropLast_append_getLast]; exact h.2))
  else none

def transfer (t : Tree) (src dst : Path) : Option Tree :=
  if h : dst ≠ [] ∧ t.isDir dst.dropLast = true ∧ ¬ src <+: dst ∧ t.childless dst = true then
    some (t.relocate src dst.dropLast (dst.getLast h.1) h.2.1
      (by rw [List.dropLast_append_getLast]; exact h.2.2.1)
      (by rw [List.dropLast_append_getLast]; exact h.2.2.2))
  else none

/-- The tree with nothing in it. -/
def empty : Tree where
  get p := if p = [] then some (.dir 0) else none
  support := [[]]
  mem_support p hp := by
    by_cases h : p = []
    · simp [h]
    · simp [h] at hp
  root_dir := ⟨0, rfl⟩
  parent_dir p n hp := by simp at hp

/-- The tree of the given entries, each directory listed before what it holds. -/
def build (l : List (Path × Node)) : Tree :=
  l.foldl (fun t e => (t.set e.1 e.2).getD t) empty

variable {t t' : Tree} {p q src dst x : Path} {n : Name} {node : Node} {raw : RawPath}

lemma set_get (h : t.set p node = some t') (x : Path) :
    t'.get x = if x = p then some node else t.get x := by
  unfold set at h
  split at h
  · next hc =>
    cases h
    simp only [put, List.dropLast_append_getLast]
  · cases h

lemma set_some (node : Node) (hp : p ≠ []) (hd : t.isDir p.dropLast = true) (hn : t.isDir p = false) :
    ∃ t', t.set p node = some t' := by
  unfold set
  rw [dif_pos ⟨hp, hd, hn⟩]
  exact ⟨_, rfl⟩

lemma unset_get (h : t.unset p = some t') (x : Path) :
    t'.get x = if x = p then none else t.get x := by
  unfold unset at h
  split at h
  · next hc =>
    cases h
    simp only [erase, List.dropLast_append_getLast]
  · cases h

lemma unset_childless (h : t.unset p = some t') : t.childless p = true := by
  unfold unset at h
  split at h
  · next hc => exact hc.2
  · cases h

lemma unset_some (hp : p ≠ []) (hc : t.childless p = true) : ∃ t', t.unset p = some t' := by
  unfold unset
  rw [dif_pos ⟨hp, hc⟩]
  exact ⟨_, rfl⟩

lemma transfer_get (h : t.transfer src dst = some t') (x : Path) :
    t'.get x = if dst <+: x then t.get (src ++ x.drop dst.length)
      else if src <+: x then none else t.get x := by
  unfold transfer at h
  split at h
  · next hc =>
    cases h
    have hlen : dst.dropLast.length + 1 = dst.length := by
      have := List.length_pos_iff.mpr hc.1
      rw [List.length_dropLast]
      omega
    simp only [relocate, List.dropLast_append_getLast, hlen]
  · cases h

lemma transfer_cond (h : t.transfer src dst = some t') :
    t.isDir dst.dropLast = true ∧ ¬ src <+: dst ∧ t.childless dst = true := by
  unfold transfer at h
  split at h
  · next hc => exact hc.2
  · cases h

lemma transfer_some (hp : dst ≠ []) (hd : t.isDir dst.dropLast = true) (hs : ¬ src <+: dst)
    (hc : t.childless dst = true) : ∃ t', t.transfer src dst = some t' := by
  unfold transfer
  rw [dif_pos ⟨hp, hd, hs, hc⟩]
  exact ⟨_, rfl⟩

/-! ### The calls -/

def orNoent {α : Type} : Option α → Except Errno α
  | some a => .ok a
  | none => .error .noent

/-- `mkdir`. -/
def mkdir (t : Tree) (raw : RawPath) (ino : ℕ) : Except Errno (Change × Tree) := do
  let (p, n) ← t.entryAt raw
  match t.get (p ++ [n]) with
  | some _ => .error .exist
  | none =>
    let t' ← orNoent (t.set (p ++ [n]) (.dir ino))
    .ok (.makeDir (p ++ [n]), t')

/-- `open` with `O_CREAT` and `O_EXCL`: a new empty file, no link followed. -/
def createNew (t : Tree) (raw : RawPath) (mtime : Option ℕ) (ino : ℕ) :
    Except Errno (Change × Tree) := do
  let (p, n) ← t.entryAt raw
  match t.get (p ++ [n]) with
  | some _ => .error .exist
  | none =>
    let t' ← orNoent (t.set (p ++ [n]) (.file [] mtime ino))
    .ok (.write (p ++ [n]) none [], t')

/-- `fs::write`: opens with `O_CREAT` and `O_TRUNC`, following links, and writes it all. -/
def write (t : Tree) (raw : RawPath) (content : Content) (mtime : Option ℕ) (ino : ℕ) :
    Except Errno (Change × Tree) := do
  let p ← t.place raw
  match t.get p with
  | none =>
    let t' ← orNoent (t.set p (.file content mtime ino))
    .ok (.write p none content, t')
  | some (.file old _ i) =>
    let t' ← orNoent (t.set p (.file content mtime i))
    .ok (.write p (some old) content, t')
  | some (.dir _) => .error .isdir
  | some (.symlink _) => .error .loop

def readFile (t : Tree) (raw : RawPath) : Except Errno Content := do
  let p ← t.realpath raw
  match t.get p with
  | some (.file c _ _) => .ok c
  | _ => .error .inval

/-- `fs::copy`. A file copied onto itself is cut to nothing before it is read. -/
def copy (t : Tree) (src dst : RawPath) (mtime : Option ℕ) (ino : ℕ) :
    Except Errno (Change × Tree) := do
  let c ← t.readFile src
  let p ← t.realpath src
  let q ← t.place dst
  t.write dst (if p = q then [] else c) mtime ino

/-- `rename`. An entry that is no directory replaces one, and an empty directory is replaced
by a directory. -/
def rename (t : Tree) (src dst : RawPath) : Except Errno (Change × Tree) := do
  let (p, n) ← t.entryAt src
  let (q, m) ← t.entryAt dst
  let a := p ++ [n]
  let b := q ++ [m]
  match t.get a with
  | none => .error .noent
  | some node =>
    if a = b then .ok (.rename a b node none, t)
    else if a <+: b then .error .inval
    else if b <+: a then .error .notempty
    else
      match t.get b, node with
      | some (.dir _), .dir _ =>
        if t.childless b then do
          let t' ← orNoent (t.transfer a b)
          .ok (.rename a b node (t.get b), t')
        else .error .notempty
      | some (.dir _), _ => .error .isdir
      | some _, .dir _ => .error .notdir
      | _, _ => do
        let t' ← orNoent (t.transfer a b)
        .ok (.rename a b node (t.get b), t')

/-- `unlink`. -/
def unlink (t : Tree) (raw : RawPath) : Except Errno (Change × Tree) := do
  let (p, n) ← t.entryAt raw
  match t.get (p ++ [n]) with
  | none => .error .noent
  | some (.dir _) => .error .isdir
  | some node =>
    let t' ← orNoent (t.unset (p ++ [n]))
    .ok (.remove (p ++ [n]) node, t')

/-- `rmdir`; slashes at the end of the path do not count. -/
def rmdir (t : Tree) (raw : RawPath) : Except Errno (Change × Tree) :=
  let raw := (raw.reverse.dropWhile (· = .blank)).reverse
  match raw.getLast? with
  | none => .error .busy
  | some .dot => .error .inval
  | some .dotdot => .error .notempty
  | _ => do
    let (p, n) ← t.entryAt raw
    match t.get (p ++ [n]) with
    | none => .error .noent
    | some (.dir i) =>
      if t.childless (p ++ [n]) then do
        let t' ← orNoent (t.unset (p ++ [n]))
        .ok (.remove (p ++ [n]) (.dir i), t')
      else .error .notempty
    | some _ => .error .notdir

/-- `read_dir`: the names in a directory. -/
def listDir (t : Tree) (p : Path) : List Name :=
  (t.support.filterMap fun x =>
    match x.reverse with
    | [] => none
    | n :: r => if r.reverse = p ∧ t.get x ≠ none then some n else none).dedup

/-! ### What a call that succeeds has done -/

variable {c : Change} {content : Content} {mtime : Option ℕ} {ino : ℕ} {dir base : RawPath}

lemma orNoent_ok {α : Type} {o : Option α} {a : α} (h : orNoent o = .ok a) : o = some a := by
  cases o with
  | none => cases h
  | some b => cases h; rfl

lemma mkdir_ok (h : t.mkdir raw ino = .ok (c, t')) :
    ∃ p n, t.entryAt raw = .ok (p, n) ∧ c = .makeDir (p ++ [n]) ∧ t.get (p ++ [n]) = none ∧
      ∀ x, t'.get x = if x = p ++ [n] then some (.dir ino) else t.get x := by
  unfold mkdir at h
  obtain ⟨⟨p, n⟩, he, h⟩ := bind_eq_ok.mp h
  simp only at h
  split at h
  · cases h
  · next hn =>
    obtain ⟨t₁, ht, h⟩ := bind_eq_ok.mp h
    cases h
    exact ⟨p, n, he, rfl, hn, set_get (orNoent_ok ht)⟩

lemma createNew_ok (h : t.createNew raw mtime ino = .ok (c, t')) :
    ∃ p n, t.entryAt raw = .ok (p, n) ∧ c = .write (p ++ [n]) none [] ∧
      t.get (p ++ [n]) = none ∧
      ∀ x, t'.get x = if x = p ++ [n] then some (.file [] mtime ino) else t.get x := by
  unfold createNew at h
  obtain ⟨⟨p, n⟩, he, h⟩ := bind_eq_ok.mp h
  simp only at h
  split at h
  · cases h
  · next hn =>
    obtain ⟨t₁, ht, h⟩ := bind_eq_ok.mp h
    cases h
    exact ⟨p, n, he, rfl, hn, set_get (orNoent_ok ht)⟩

/-- Under an entry that is no link, the calls that take a name act at that very place. -/
lemma mkdir_under (hp : t.Solid p)
    (h : t.mkdir (Path.raw (p ++ [n])) ino = .ok (c, t')) :
    t.isDir p = true ∧ c = .makeDir (p ++ [n]) ∧ t.get (p ++ [n]) = none ∧
      ∀ x, t'.get x = if x = p ++ [n] then some (.dir ino) else t.get x := by
  obtain ⟨q, m, he, h⟩ := mkdir_ok h
  rw [raw_snoc, entryAt_under hp] at he
  split at he
  · next hd => cases he; exact ⟨hd, h⟩
  · cases he

lemma createNew_under (hp : t.Solid p)
    (h : t.createNew (Path.raw (p ++ [n])) mtime ino = .ok (c, t')) :
    t.isDir p = true ∧ c = .write (p ++ [n]) none [] ∧ t.get (p ++ [n]) = none ∧
      ∀ x, t'.get x = if x = p ++ [n] then some (.file [] mtime ino) else t.get x := by
  obtain ⟨q, m, he, h⟩ := createNew_ok h
  rw [raw_snoc, entryAt_under hp] at he
  split at he
  · next hd => cases he; exact ⟨hd, h⟩
  · cases he

lemma write_ok (h : t.write raw content mtime ino = .ok (c, t')) :
    ∃ p old i, t.place raw = .ok p ∧ c = .write p old content ∧
      (old = none ∧ t.get p = none ∨ ∃ b m, old = some b ∧ t.get p = some (.file b m i)) ∧
      ∀ x, t'.get x = if x = p then some (.file content mtime i) else t.get x := by
  unfold write at h
  obtain ⟨p, hp, h⟩ := bind_eq_ok.mp h
  split at h
  · next hn =>
    obtain ⟨t₁, ht, h⟩ := bind_eq_ok.mp h
    cases h
    exact ⟨p, none, ino, hp, rfl, .inl ⟨rfl, hn⟩, set_get (orNoent_ok ht)⟩
  · next b m i hn =>
    obtain ⟨t₁, ht, h⟩ := bind_eq_ok.mp h
    cases h
    exact ⟨p, some b, i, hp, rfl, .inr ⟨b, m, rfl, hn⟩, set_get (orNoent_ok ht)⟩
  · cases h
  · cases h

/-- A write goes through wherever it does not arrive at a directory. -/
lemma write_succeeds (content : Content) (mtime : Option ℕ) (ino : ℕ) (h : t.place raw = .ok p) (hd : t.isDir p = false) :
    ∃ old t', t.write raw content mtime ino = .ok (.write p old content, t') := by
  unfold write
  rw [h]
  rcases place_arrives h with ⟨nd, hnd, hl⟩ | ⟨hn, hp, hpd⟩
  · cases nd with
    | dir i => simp [isDir_iff.mpr ⟨i, hnd⟩] at hd
    | symlink s => cases hl
    | file b m i =>
      have hp : p ≠ [] := by
        rintro rfl
        simp at hd
      have hpd : t.isDir p.dropLast = true := by
        rw [← List.dropLast_append_getLast hp] at hnd
        exact isDir_parent (by rw [hnd]; simp)
      obtain ⟨t', ht⟩ := set_some (.file content mtime i) hp hpd hd
      exact ⟨some b, t', by simp [bind, Except.bind, hnd, ht, orNoent]⟩
  · obtain ⟨t', ht⟩ := set_some (.file content mtime ino) hp hpd hd
    exact ⟨none, t', by simp [bind, Except.bind, hn, ht, orNoent]⟩

lemma write_not_dir (h : t.write raw content mtime ino = .ok (c, t')) (hp : t.place raw = .ok p) :
    t.isDir p = false := by
  obtain ⟨p', old, i, hp', -, hold, -⟩ := write_ok h
  rw [hp] at hp'
  cases hp'
  unfold isDir
  rcases hold with ⟨-, hn⟩ | ⟨b, m, -, hn⟩ <;> rw [hn]

/-- What is known of a place once it has been written. -/
structure Written (t t' : Tree) (p : Path) : Prop where
  off : ∀ x, x ≠ p → t'.get x = t.get x
  notDir : t.isDir p = false
  notLink : ∀ s, t.get p ≠ some (.symlink s)
  notDir' : t'.isDir p = false
  notLink' : ∀ s, t'.get p ≠ some (.symlink s)
  solid : Solid t' p

lemma write_written (h : t.write raw content mtime ino = .ok (c, t')) (hp : t.place raw = .ok p) :
    Written t t' p := by
  have hd := write_not_dir h hp
  obtain ⟨p', old, i, hp', -, hold, hget⟩ := write_ok h
  rw [hp] at hp'
  cases hp'
  have hnew : t'.get p = some (.file content mtime i) := by rw [hget, if_pos rfl]
  refine ⟨fun x hx => by rw [hget, if_neg hx], hd, fun s hs => ?_, ?_, ?_, ⟨_, hnew, rfl⟩⟩
  · rcases hold with ⟨-, hn⟩ | ⟨b, m, -, hn⟩ <;> rw [hn] at hs <;> cases hs
  · unfold isDir
    rw [hnew]
  · intro s hs
    rw [hnew] at hs
    cases hs

/-- Lookups find what they found before a write, and what was written. -/
lemma Written.realpath (h : Written t t' p) (hq : t.realpath raw = .ok q) :
    t'.realpath raw = .ok q := realpath_agree h.off h.notDir h.notLink hq fun _ => h.solid

lemma Written.place (h : Written t t' p) (hq : t.place raw = .ok q) : t'.place raw = .ok q :=
  place_iff.mpr (walks_agree h.off h.notDir h.notLink (place_iff.mp hq) (fun _ => h.solid) id)

/-- What a lookup finds after a write it found before, unless it is what was written. -/
lemma Written.realpath_back (h : Written t t' p) (hq : t'.realpath raw = .ok q) :
    t.realpath raw = .ok q ∨ q = p := by
  by_cases hqp : q = p
  · exact .inr hqp
  · exact .inl (realpath_agree (fun x hx => (h.off x hx).symm) h.notDir' h.notLink' hq
      fun he => absurd he hqp)

lemma readFile_ok {b : Content} (h : t.readFile raw = .ok b) :
    ∃ p m i, t.realpath raw = .ok p ∧ t.get p = some (.file b m i) := by
  unfold readFile at h
  obtain ⟨p, hp, h⟩ := bind_eq_ok.mp h
  split at h
  · next hf => cases h; exact ⟨p, _, _, hp, hf⟩
  · cases h

lemma copy_ok (h : t.copy raw dir mtime ino = .ok (c, t')) :
    ∃ p q b m i, t.realpath raw = .ok p ∧ t.get p = some (.file b m i) ∧ t.place dir = .ok q ∧
      t.write dir (if p = q then [] else b) mtime ino = .ok (c, t') := by
  unfold copy at h
  obtain ⟨b, hb, h⟩ := bind_eq_ok.mp h
  obtain ⟨p, hp, h⟩ := bind_eq_ok.mp h
  obtain ⟨q, hq, h⟩ := bind_eq_ok.mp h
  obtain ⟨p', m, i, hp', hf⟩ := readFile_ok hb
  rw [hp] at hp'
  cases hp'
  exact ⟨p, q, b, m, i, hp, hf, hq, h⟩

/-- A rename moves the entry, with what is below it, to a free place or over an entry
without children; onto itself it does nothing. -/
lemma rename_ok (h : t.rename raw dir = .ok (c, t')) :
    ∃ p n q m node, t.entryAt raw = .ok (p, n) ∧ t.entryAt dir = .ok (q, m) ∧
      t.get (p ++ [n]) = some node ∧
      (p ++ [n] = q ++ [m] ∧ c = .rename (p ++ [n]) (q ++ [m]) node none ∧ t' = t ∨
        (¬ p ++ [n] <+: q ++ [m] ∧ ¬ q ++ [m] <+: p ++ [n] ∧
          c = .rename (p ++ [n]) (q ++ [m]) node (t.get (q ++ [m])) ∧
          t.transfer (p ++ [n]) (q ++ [m]) = some t')) := by
  unfold rename at h
  obtain ⟨⟨p, n⟩, hs, h⟩ := bind_eq_ok.mp h
  obtain ⟨⟨q, m⟩, hd, h⟩ := bind_eq_ok.mp h
  simp only at h
  split at h
  · cases h
  · next node hnode =>
    refine ⟨p, n, q, m, node, hs, hd, hnode, ?_⟩
    split at h
    · next he =>
      cases h
      exact .inl ⟨he, rfl, rfl⟩
    · split at h
      · cases h
      · next hab =>
        split at h
        · cases h
        · next hba =>
          split at h
          · split at h
            · obtain ⟨u, hu, h⟩ := bind_eq_ok.mp h
              cases h
              exact .inr ⟨hab, hba, rfl, orNoent_ok hu⟩
            · cases h
          · cases h
          · cases h
          · obtain ⟨u, hu, h⟩ := bind_eq_ok.mp h
            cases h
            exact .inr ⟨hab, hba, rfl, orNoent_ok hu⟩

/-- A rename between resolved paths is about these very places. -/
lemma rename_resolved {a r : Path} (ha : t.get a ≠ none)
    (hr : t.Solid r)
    (h : t.rename a.raw (Path.raw (r ++ [n])) = .ok (c, t')) :
    t.isDir r = true ∧ ∃ node, t.get a = some node ∧
      (a = r ++ [n] ∧ c = .rename a (r ++ [n]) node none ∧ t' = t ∨
        (¬ a <+: r ++ [n] ∧ ¬ r ++ [n] <+: a ∧
          c = .rename a (r ++ [n]) node (t.get (r ++ [n])) ∧
          t.transfer a (r ++ [n]) = some t')) := by
  obtain ⟨p, m, q, m', node, hs, hd, hnode, hc⟩ := rename_ok h
  have hdst : t.isDir r = true ∧ r = q ∧ n = m' := by
    rw [raw_append] at hd
    change t.entryAt (Path.raw r ++ [Seg.name n]) = _ at hd
    rw [entryAt_under hr] at hd
    split at hd
    · next hdir =>
      cases hd
      exact ⟨hdir, rfl, rfl⟩
    · cases hd
  obtain ⟨hdir, rfl, rfl⟩ := hdst
  have hsrc : a = p ++ [m] := by
    rcases List.eq_nil_or_concat a with rfl | ⟨a, l, rfl⟩
    · simp [entryAt, Path.raw] at hs
    · rw [List.concat_eq_append] at ha hs ⊢
      rw [raw_append] at hs
      change t.entryAt (Path.raw a ++ [.name l]) = _ at hs
      rw [entryAt_name (isDir_parent ha)] at hs
      cases hs
      rfl
  subst hsrc
  exact ⟨hdir, node, hnode, hc⟩

lemma unlink_ok (h : t.unlink raw = .ok (c, t')) :
    ∃ p n node, t.entryAt raw = .ok (p, n) ∧ c = .remove (p ++ [n]) node ∧
      t.get (p ++ [n]) = some node ∧ t.isDir (p ++ [n]) = false ∧
      t.unset (p ++ [n]) = some t' := by
  unfold unlink at h
  obtain ⟨⟨p, n⟩, he, h⟩ := bind_eq_ok.mp h
  simp only at h
  split at h
  · cases h
  · cases h
  · next node hne hnode =>
    obtain ⟨u, hu, h⟩ := bind_eq_ok.mp h
    cases h
    refine ⟨p, n, node, he, rfl, hnode, ?_, orNoent_ok hu⟩
    rw [Bool.eq_false_iff]
    intro hd
    obtain ⟨i, hi⟩ := isDir_iff.mp hd
    rw [hnode] at hi
    cases hi
    exact hne i rfl

lemma rmdir_ok (h : t.rmdir raw = .ok (c, t')) :
    ∃ p n i, t.entryAt (raw.reverse.dropWhile (· = .blank)).reverse = .ok (p, n) ∧
      c = .remove (p ++ [n]) (.dir i) ∧ t.get (p ++ [n]) = some (.dir i) ∧
      t.unset (p ++ [n]) = some t' := by
  unfold rmdir at h
  simp only at h
  split at h
  · cases h
  · cases h
  · cases h
  · obtain ⟨⟨p, n⟩, he, h⟩ := bind_eq_ok.mp h
    simp only at h
    split at h
    · cases h
    · next i hi =>
      split at h
      · obtain ⟨u, hu, h⟩ := bind_eq_ok.mp h
        cases h
        exact ⟨p, n, i, he, rfl, hi, orNoent_ok hu⟩
      · cases h
    · cases h

end Tree

/-! ### Changes as relations between trees -/

/-- What a change means for the trees before and after it. -/
def Change.Applies (t t' : Tree) : Change → Prop
  | .makeDir p => t.get p = none ∧ ∃ i, ∀ x, t'.get x = if x = p then some (.dir i) else t.get x
  | .write p old new =>
    ∃ m i, (old = none ∧ t.get p = none ∨ ∃ b m', old = some b ∧ t.get p = some (.file b m' i)) ∧
      ∀ x, t'.get x = if x = p then some (.file new m i) else t.get x
  | .rename src dst node gone =>
    t.get src = some node ∧
      (src = dst ∧ gone = none ∧ t' = t ∨
        ¬ src <+: dst ∧ ¬ dst <+: src ∧ t.childless dst = true ∧ t.get dst = gone ∧
          t.isDir dst.dropLast = true ∧
          ∀ x, t'.get x = if dst <+: x then t.get (src ++ x.drop dst.length)
            else if src <+: x then none else t.get x)
  | .remove p node =>
    t.get p = some node ∧ t.childless p = true ∧
      ∀ x, t'.get x = if x = p then none else t.get x

namespace Tree

variable {t t' : Tree} {c : Change} {raw dir : RawPath} {content : Content} {mtime : Option ℕ}
  {ino : ℕ}

lemma mkdir_applies (h : t.mkdir raw ino = .ok (c, t')) : c.Applies t t' := by
  obtain ⟨p, n, -, rfl, hn, hget⟩ := mkdir_ok h
  exact ⟨hn, ino, hget⟩

lemma createNew_applies (h : t.createNew raw mtime ino = .ok (c, t')) : c.Applies t t' := by
  obtain ⟨p, n, -, rfl, hn, hget⟩ := createNew_ok h
  exact ⟨mtime, ino, .inl ⟨rfl, hn⟩, hget⟩

lemma write_applies (h : t.write raw content mtime ino = .ok (c, t')) : c.Applies t t' := by
  obtain ⟨p, old, i, -, rfl, hold, hget⟩ := write_ok h
  exact ⟨mtime, i, hold, hget⟩

lemma copy_applies (h : t.copy raw dir mtime ino = .ok (c, t')) : c.Applies t t' := by
  obtain ⟨p, q, b, m, i, -, -, -, hw⟩ := copy_ok h
  exact write_applies hw

lemma rename_applies (h : t.rename raw dir = .ok (c, t')) : c.Applies t t' := by
  obtain ⟨p, n, q, m, node, -, -, hnode, h | h⟩ := rename_ok h
  · obtain ⟨he, rfl, rfl⟩ := h
    exact ⟨hnode, .inl ⟨he, rfl, rfl⟩⟩
  · obtain ⟨hab, hba, rfl, ht⟩ := h
    obtain ⟨hd, -, hc⟩ := transfer_cond ht
    exact ⟨hnode, .inr ⟨hab, hba, hc, rfl, hd, transfer_get ht⟩⟩

lemma unlink_applies (h : t.unlink raw = .ok (c, t')) : c.Applies t t' := by
  obtain ⟨p, n, node, -, rfl, hnode, -, ht⟩ := unlink_ok h
  exact ⟨hnode, unset_childless ht, unset_get ht⟩

lemma rmdir_applies (h : t.rmdir raw = .ok (c, t')) : c.Applies t t' := by
  obtain ⟨p, n, i, -, rfl, hnode, ht⟩ := rmdir_ok h
  exact ⟨hnode, unset_childless ht, unset_get ht⟩

end Tree

namespace Change

open Tree

variable {t t' : Tree} {p x src dst : Path} {node : Node} {gone : Option Node}
  {old : Option Content} {new : Content}

lemma isDir_of_get (h : t'.get x = t.get x) : t'.isDir x = t.isDir x := by
  unfold isDir
  rw [h]

/-- A write leaves the directories. -/
lemma Applies.isDir_write (h : (Change.write p old new).Applies t t') :
    t'.isDir x = t.isDir x := by
  obtain ⟨m, i, hold, hget⟩ := h
  by_cases hx : x = p
  · subst hx
    have hnew : t'.isDir x = false := by
      unfold isDir
      rw [hget, if_pos rfl]
    have hold : t.isDir x = false := by
      unfold isDir
      rcases hold with ⟨-, hn⟩ | ⟨b, m', -, hn⟩ <;> rw [hn]
    rw [hnew, hold]
  · exact isDir_of_get (by rw [hget, if_neg hx])

/-- A rename over what is no directory leaves the directories that it does not move. -/
lemma Applies.isDir_rename (h : (Change.rename src dst node gone).Applies t t')
    (hdst : t.isDir dst = false) (hx : t.isDir x = true) (hsrc : ¬ src <+: x) :
    t'.isDir x = true := by
  obtain ⟨-, ⟨-, -, rfl⟩ | ⟨-, -, hc, -, -, hget⟩⟩ := h
  · exact hx
  · refine (isDir_of_get ?_).trans hx
    rw [hget]
    by_cases hd : dst <+: x
    · -- nothing but the place itself could be there
      obtain ⟨y, rfl⟩ := hd
      by_cases hy : y = []
      · subst hy
        rw [List.append_nil, hdst] at hx
        cases hx
      · exact absurd (childless_iff.mp hc y hy) (get_ne_none_of_isDir hx)
    · rw [if_neg hd, if_neg hsrc]

/-- A new file leaves what was there. -/
lemma Applies.keeps_write (h : (Change.write p none new).Applies t t') {nd : Node}
    (hx : t.get x = some nd) : t'.get x = some nd := by
  obtain ⟨m, i, hold, hget⟩ := h
  rw [hget, if_neg, hx]
  rintro rfl
  rcases hold with ⟨-, hn⟩ | ⟨b, m', hb, -⟩
  · rw [hx] at hn
    cases hn
  · cases hb

/-- A rename to a free place takes along what is renamed and leaves the rest. -/
lemma Applies.keeps_rename (h : (Change.rename src dst node none).Applies t t') {nd : Node}
    (hx : t.get x = some nd) : t'.get (reroute src dst x) = some nd := by
  unfold reroute
  obtain ⟨hnode, ⟨rfl, -, rfl⟩ | ⟨hne, -, hc, hfree, -, hget⟩⟩ := h
  · split
    · next hp =>
      obtain ⟨y, rfl⟩ := hp
      simpa using hx
    · exact hx
  · split
    · next hp =>
      obtain ⟨y, rfl⟩ := hp
      rw [hget, if_pos (List.prefix_append _ _)]
      simpa using hx
    · next hp =>
      rw [hget, if_neg, if_neg hp, hx]
      rintro ⟨y, rfl⟩
      -- nothing is at or below the free place
      by_cases hy : y = []
      · subst hy
        rw [List.append_nil, hfree] at hx
        cases hx
      · rw [childless_iff.mp hc y hy] at hx
        cases hx

/-- Nothing is replaced where nothing is. -/
lemma Applies.replaces_none (h : (Change.rename src dst node gone).Applies t t') (hd : t.get dst = none) :
    gone = none := by
  obtain ⟨-, ⟨-, hg, -⟩ | ⟨-, -, -, hg, -⟩⟩ := h
  · exact hg
  · rw [← hg, hd]

end Change

end MouseKeeper.Posix
