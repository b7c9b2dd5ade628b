import MouseKeeper.Posix.Tree

/-!
Looking a path up in a tree.

A lookup goes down name by name, up at every `..`, and at a symbolic link continues with
the text of the link; it gives up after forty links. A lookup that is about to create an
entry lets the last name be missing.
-/

namespace MouseKeeper.Posix

inductive Errno
  | noent
  | notdir
  | isdir
  | exist
  | notempty
  | inval
  | loop
  | busy
  deriving DecidableEq

def Errno.toText : Errno → String
  | .noent => "No such file or directory (os error 2)"
  | .notdir => "Not a directory (os error 20)"
  | .isdir => "Is a directory (os error 21)"
  | .exist => "File exists (os error 17)"
  | .notempty => "Directory not empty (os error 39)"
  | .inval => "Invalid argument (os error 22)"
  | .loop => "Too many levels of symbolic links (os error 40)"
  | .busy => "Device or resource busy (os error 16)"

lemma bind_eq_ok {ε α β : Type} {m : Except ε α} {f : α → Except ε β} {b : β} :
    (m >>= f) = .ok b ↔ ∃ a, m = .ok a ∧ f a = .ok b := by
  cases m <;> simp [bind, Except.bind]

lemma isOk_iff {ε α : Type} {m : Except ε α} : m.isOk = true ↔ ∃ a, m = .ok a := by
  cases m <;> simp [Except.isOk, Except.toBool]

namespace Tree

/-- One pass over the path, handing over to `follow` at a symbolic link. -/
def walkFrom (t : Tree) (create : Bool) (follow : Path → RawPath → Except Errno Path) :
    Path → RawPath → Except Errno Path
  | cur, [] => .ok cur
  | cur, seg :: rest =>
    if t.isDir cur then
      match seg with
      | .blank | .dot => walkFrom t create follow cur rest
      | .dotdot => walkFrom t create follow cur.dropLast rest
      | .name n =>
        match t.get (cur ++ [n]) with
        | none => if create && rest.isEmpty then .ok (cur ++ [n]) else .error .noent
        | some (.symlink target) =>
          follow (if isAbsolute target then [] else cur) (segsOf target ++ rest)
        | some _ => walkFrom t create follow (cur ++ [n]) rest
    else .error .notdir

def walk (t : Tree) (create : Bool) : ℕ → Path → RawPath → Except Errno Path
  | 0 => walkFrom t create fun _ _ => .error .loop
  | k + 1 => walkFrom t create (walk t create k)

def maxLinks : ℕ := 40

/-- `realpath`: the place a path leads to, every link followed. -/
def realpath (t : Tree) (raw : RawPath) : Except Errno Path := walk t false maxLinks [] raw

/-- Where opening a path for writing, created if missing, ends up. -/
def place (t : Tree) (raw : RawPath) : Except Errno Path := walk t true maxLinks [] raw

/-- The directory and the name a path stands for, its last part not followed. -/
def entryAt (t : Tree) (raw : RawPath) : Except Errno (Path × Name) :=
  match raw.getLast? with
  | some (.name n) => do
    let p ← t.realpath raw.dropLast
    if t.isDir p then .ok (p, n) else .error .notdir
  | some _ => do
    let _ ← t.realpath raw.dropLast
    .error .exist
  | none => .error .exist

/-- `symlink_metadata`: the entry itself, a link at the end not followed. -/
def lstat (t : Tree) (raw : RawPath) : Except Errno Node :=
  match raw.getLast? with
  | some (.name _) => do
    let (p, n) ← t.entryAt raw
    found (t.get (p ++ [n]))
  | _ => do
    let p ← t.realpath raw
    found (t.get p)
where
  found : Option Node → Except Errno Node
    | some node => .ok node
    | none => .error .noent

def existsAt (t : Tree) (raw : RawPath) : Bool := (t.realpath raw).isOk

def isDirAt (t : Tree) (raw : RawPath) : Bool :=
  match t.realpath raw with
  | .ok p => t.isDir p
  | .error _ => false

def isFileAt (t : Tree) (raw : RawPath) : Bool :=
  match t.realpath raw with
  | .ok p => t.isFile p
  | .error _ => false

variable {t t' : Tree} {p q cur : Path} {n : Name} {nd : Node} {raw rest : RawPath} {k : ℕ}

/-! ### Successful lookups, step by step -/

/-- The steps of a lookup that follows at most `k` links, and may end at a free name if it is
to create. -/
inductive Walks (t : Tree) (create : Bool) : ℕ → Path → RawPath → Path → Prop
  | done {k : ℕ} {cur : Path} : Walks t create k cur [] cur
  | stay {k : ℕ} {cur : Path} {seg : Seg} {rest : RawPath} {q : Path} (hd : t.isDir cur = true)
      (hs : seg.isTrivial = true) (hw : Walks t create k cur rest q) :
      Walks t create k cur (seg :: rest) q
  | up {k : ℕ} {cur : Path} {rest : RawPath} {q : Path} (hd : t.isDir cur = true)
      (hw : Walks t create k cur.dropLast rest q) : Walks t create k cur (.dotdot :: rest) q
  | down {k : ℕ} {cur : Path} {n : Name} {rest : RawPath} {q : Path} {nd : Node}
      (hd : t.isDir cur = true) (hn : t.get (cur ++ [n]) = some nd) (hl : nd.isSymlink = false)
      (hw : Walks t create k (cur ++ [n]) rest q) : Walks t create k cur (.name n :: rest) q
  | free {k : ℕ} {cur : Path} {n : Name} (hc : create = true) (hd : t.isDir cur = true)
      (hn : t.get (cur ++ [n]) = none) : Walks t create k cur [.name n] (cur ++ [n])
  | link {k : ℕ} {cur : Path} {n : Name} {rest : RawPath} {q : Path} {target : String}
      (hd : t.isDir cur = true) (hn : t.get (cur ++ [n]) = some (.symlink target))
      (hw : Walks t create k (if isAbsolute target then [] else cur) (segsOf target ++ rest) q) :
      Walks t create (k + 1) cur (.name n :: rest) q

variable {create : Bool}

lemma walk_eq (t : Tree) (create : Bool) (k : ℕ) :
    walk t create k = walkFrom t create (match k with
      | 0 => fun _ _ => .error .loop
      | k + 1 => walk t create k) := by
  cases k <;> rfl

lemma walks_of_walk (h : walk t create k cur raw = .ok q) : Walks t create k cur raw q := by
  -- one pass, whatever is done at a link
  have pass : ∀ (j : ℕ) (follow : Path → RawPath → Except Errno Path),
      (∀ x n s rest, t.isDir x = true → t.get (x ++ [n]) = some (.symlink s) →
        follow (if isAbsolute s then [] else x) (segsOf s ++ rest) = .ok q →
        Walks t create j x (.name n :: rest) q) →
      ∀ raw' x, walkFrom t create follow x raw' = .ok q → Walks t create j x raw' q := by
    intro j follow hfollow raw'
    induction raw' with
    | nil =>
      intro x hw
      cases hw
      exact .done
    | cons seg rest ih =>
      intro x hw
      simp only [walkFrom] at hw
      split at hw
      · next hd =>
        split at hw
        · exact .stay hd rfl (ih x hw)
        · exact .stay hd rfl (ih x hw)
        · exact .up hd (ih _ hw)
        · next n =>
          split at hw
          · next hn =>
            split at hw
            · next hc =>
              cases hw
              simp only [Bool.and_eq_true, List.isEmpty_iff] at hc
              rw [hc.2]
              exact .free hc.1 hd hn
            · cases hw
          · next s hs => exact hfollow _ _ _ _ hd hs hw
          · next nd hne hnd =>
            refine .down hd hnd ?_ (ih _ hw)
            cases nd <;> simp_all [Node.isSymlink]
      · cases hw
  induction k generalizing cur raw with
  | zero => exact pass 0 _ (fun _ _ _ _ _ _ hf => by cases hf) raw cur h
  | succ k ih => exact pass (k + 1) _ (fun _ _ _ _ hd hn hf => .link hd hn (ih hf)) raw cur h

lemma walk_of_walks (h : Walks t create k cur raw q) : walk t create k cur raw = .ok q := by
  induction h with
  | done => rw [walk_eq]; rfl
  | @stay k cur seg rest q hd hs hw ih =>
    rw [walk_eq] at ih ⊢
    cases seg <;> simp_all [walkFrom, Seg.isTrivial]
  | up hd hw ih =>
    rw [walk_eq] at ih ⊢
    simp_all [walkFrom]
  | @down k cur n rest q nd hd hn hl hw ih =>
    rw [walk_eq] at ih ⊢
    cases nd <;> simp_all [walkFrom, Node.isSymlink]
  | free hc hd hn =>
    rw [walk_eq]
    simp only [walkFrom, hd, hn, hc, if_true, List.isEmpty_nil, Bool.and_self]
  | link hd hn hw ih =>
    rw [walk_eq]
    simp only [walkFrom, hd, hn, if_true]
    exact ih

lemma walks_iff : walk t create k cur raw = .ok q ↔ Walks t create k cur raw q :=
  ⟨walks_of_walk, walk_of_walks⟩

lemma realpath_iff : t.realpath raw = .ok q ↔ Walks t false maxLinks [] raw q := walks_iff

lemma place_iff : t.place raw = .ok q ↔ Walks t true maxLinks [] raw q := walks_iff

lemma Walks.unique {q' : Path} (h : Walks t create k cur raw q)
    (h' : Walks t create k cur raw q') : q = q' := by
  have h1 := walk_of_walks h
  rw [walk_of_walks h'] at h1
  exact (Except.ok.inj h1).symm

/-- A lookup that creates nothing succeeds also where it might. -/
lemma Walks.relax (h : Walks t false k cur raw q) : Walks t create k cur raw q := by
  induction h with
  | done => exact .done
  | stay hd hs _ ih => exact .stay hd hs ih
  | up hd _ ih => exact .up hd ih
  | down hd hn hl _ ih => exact .down hd hn hl ih
  | free hc => cases hc
  | link hd hn _ ih => exact .link hd hn ih

/-- A lookup that might create has not, if it arrived at an entry. -/
lemma Walks.strict (h : Walks t create k cur raw q) (hq : t.get q ≠ none) :
    Walks t false k cur raw q := by
  induction h with
  | done => exact .done
  | stay hd hs _ ih => exact .stay hd hs (ih hq)
  | up hd _ ih => exact .up hd (ih hq)
  | down hd hn hl _ ih => exact .down hd hn hl (ih hq)
  | free _ _ hn => exact absurd hn hq
  | link hd hn _ ih => exact .link hd hn (ih hq)

/-- More links allowed do no harm. -/
lemma Walks.more {k' : ℕ} (h : Walks t create k cur raw q) (hk : k ≤ k') :
    Walks t create k' cur raw q := by
  induction h generalizing k' with
  | done => exact .done
  | stay hd hs _ ih => exact .stay hd hs (ih hk)
  | up hd _ ih => exact .up hd (ih hk)
  | down hd hn hl _ ih => exact .down hd hn hl (ih hk)
  | free hc hd hn => exact .free hc hd hn
  | link hd hn _ ih =>
    obtain ⟨j, rfl⟩ : ∃ j, k' = j + 1 := ⟨k' - 1, by omega⟩
    exact .link hd hn (ih (by omega))

/-- A lookup that gets through a path gets through its front. -/
lemma Walks.split {a b : RawPath} (h : Walks t create k cur (a ++ b) q) :
    ∃ r, Walks t create k cur a r ∧ Walks t create k r b q := by
  generalize hab : a ++ b = raw at h
  induction h generalizing a with
  | done =>
    obtain ⟨rfl, rfl⟩ := List.append_eq_nil_iff.mp hab
    exact ⟨_, .done, .done⟩
  | @stay k cur seg rest q hd hs hw ih =>
    cases a with
    | nil => exact ⟨_, .done, by rw [List.nil_append] at hab; exact hab ▸ .stay hd hs hw⟩
    | cons s a =>
      obtain ⟨rfl, hab'⟩ := List.cons.inj hab
      obtain ⟨r, h1, h2⟩ := ih hab'
      exact ⟨r, .stay hd hs h1, h2⟩
  | up hd hw ih =>
    cases a with
    | nil => exact ⟨_, .done, by rw [List.nil_append] at hab; exact hab ▸ .up hd hw⟩
    | cons s a =>
      obtain ⟨rfl, hab'⟩ := List.cons.inj hab
      obtain ⟨r, h1, h2⟩ := ih hab'
      exact ⟨r, .up hd h1, h2⟩
  | down hd hn hl hw ih =>
    cases a with
    | nil => exact ⟨_, .done, by rw [List.nil_append] at hab; exact hab ▸ .down hd hn hl hw⟩
    | cons s a =>
      obtain ⟨rfl, hab'⟩ := List.cons.inj hab
      obtain ⟨r, h1, h2⟩ := ih hab'
      exact ⟨r, .down hd hn hl h1, h2⟩
  | @free k cur n hc hd hn =>
    cases a with
    | nil => exact ⟨_, .done, by rw [List.nil_append] at hab; exact hab ▸ .free hc hd hn⟩
    | cons s a =>
      obtain ⟨rfl, hab'⟩ := List.cons.inj hab
      obtain ⟨rfl, rfl⟩ := List.append_eq_nil_iff.mp hab'
      exact ⟨_, .free hc hd hn, .done⟩
  | @link k cur n rest q target hd hn hw ih =>
    cases a with
    | nil => exact ⟨_, .done, by rw [List.nil_append] at hab; exact hab ▸ .link hd hn hw⟩
    | cons s a =>
      obtain ⟨rfl, hab'⟩ := List.cons.inj hab
      have hab' : segsOf target ++ a ++ b = segsOf target ++ rest := by
        rw [List.append_assoc]
        exact congrArg _ hab'
      obtain ⟨r, h1, h2⟩ := ih hab'
      exact ⟨r, .link hd hn h1, h2.more (by omega)⟩

/-- An entry that is there and no link. -/
def Solid (t : Tree) (p : Path) : Prop := ∃ nd, t.get p = some nd ∧ nd.isSymlink = false

lemma solid_of_isDir (h : t.isDir p = true) : Solid t p := by
  obtain ⟨i, hi⟩ := isDir_iff.mp h
  exact ⟨_, hi, rfl⟩

lemma solid_root (t : Tree) : Solid t [] := solid_of_isDir t.isDir_root

/-- A name that is free in a directory. -/
def FreeName (t : Tree) (p : Path) : Prop :=
  t.get p = none ∧ p ≠ [] ∧ t.isDir p.dropLast = true

/-- What is arrived at is there and no link, or is free to be created. -/
lemma Walks.arrives (h : Walks t create k cur raw q) (hcur : Solid t cur) :
    Solid t q ∨ (create = true ∧ FreeName t q) := by
  induction h with
  | done => exact .inl hcur
  | stay _ _ _ ih => exact ih hcur
  | @up k cur rest q hd _ ih =>
    refine ih (solid_of_isDir ?_)
    rcases List.eq_nil_or_concat cur with rfl | ⟨x, m, rfl⟩
    · simp
    · simp only [List.concat_eq_append] at hd ⊢
      simpa using isDir_parent (get_ne_none_of_isDir hd)
  | down _ hn hl _ ih => exact ih ⟨_, hn, hl⟩
  | free hc hd hn => exact .inr ⟨hc, hn, by simp, by simpa using hd⟩
  | link hd _ _ ih =>
    refine ih (solid_of_isDir ?_)
    split
    · simp
    · exact hd

lemma realpath_arrives (h : t.realpath raw = .ok q) : Solid t q := by
  rcases (realpath_iff.mp h).arrives t.solid_root with h | ⟨hc, -⟩
  · exact h
  · cases hc

lemma place_arrives (h : t.place raw = .ok q) : Solid t q ∨ FreeName t q :=
  ((place_iff.mp h).arrives t.solid_root).imp_right And.right

lemma realpath_of_place (h : t.place raw = .ok q) (hq : t.get q ≠ none) :
    t.realpath raw = .ok q := realpath_iff.mpr ((place_iff.mp h).strict hq)

lemma existsAt_iff : t.existsAt raw = true ↔ ∃ q, t.realpath raw = .ok q := by
  exact isOk_iff

lemma isFileAt_iff : t.isFileAt raw = true ↔ ∃ q, t.realpath raw = .ok q ∧ t.isFile q = true := by
  unfold isFileAt
  cases t.realpath raw <;> simp

/-- Where nothing is found, a file would be new. -/
lemma free_of_not_exists (h : t.place raw = .ok q) (hx : t.existsAt raw = false) :
    t.get q = none := by
  by_contra hq
  rw [existsAt_iff.mpr ⟨q, realpath_of_place h hq⟩] at hx
  cases hx

lemma place_of_realpath (h : t.realpath raw = .ok q) : t.place raw = .ok q :=
  place_iff.mpr (realpath_iff.mp h).relax

/-! ### Paths without links -/

/-- Going down by the names of an entry. -/
lemma walks_down (h : Solid t (cur ++ p)) (hw : Walks t create k (cur ++ p) rest q) :
    Walks t create k cur (p.raw ++ rest) q := by
  induction p generalizing cur with
  | nil => simpa [Path.raw] using hw
  | cons n p ih =>
    have hcp : cur ++ n :: p = cur ++ [n] ++ p := by simp
    rw [hcp] at h hw
    obtain ⟨nd, hnd, hl⟩ := h
    have hd : t.isDir cur = true := by
      rw [List.append_assoc] at hnd
      exact isDir_above (by rw [hnd]; simp) (by simp)
    have hmid : Solid t (cur ++ [n]) := by
      by_cases hp : p = []
      · subst hp
        exact ⟨nd, by simpa using hnd, hl⟩
      · exact solid_of_isDir (isDir_above (q := p) (by rw [hnd]; simp) hp)
    obtain ⟨nd', hnd', hl'⟩ := hmid
    exact .down hd hnd' hl' (ih ⟨nd, hnd, hl⟩ hw)

/-- An entry that is no link is found under its own names. -/
lemma realpath_raw (h : Solid t p) : t.realpath p.raw = .ok p := by
  rw [realpath_iff]
  have hw : Walks t false maxLinks [] (p.raw ++ []) p :=
    walks_down (by simpa using h) (by simpa using Walks.done)
  simpa using hw

lemma realpath_raw_dir (h : t.isDir p = true) : t.realpath p.raw = .ok p :=
  realpath_raw (solid_of_isDir h)

/-- What lies under a directory's names: the directory first, then the rest. -/
lemma walk_under (create : Bool) (h : t.isDir (cur ++ p) = true) :
    t.walk create k cur (p.raw ++ rest) = t.walk create k (cur ++ p) rest := by
  induction p generalizing cur with
  | nil => simp [Path.raw]
  | cons n p ih =>
    have hcp : cur ++ n :: p = cur ++ [n] ++ p := by simp
    rw [hcp] at h ⊢
    have hne := get_ne_none_of_isDir h
    have hd : t.isDir cur = true := by
      rw [List.append_assoc] at hne
      exact isDir_above hne (by simp)
    have hmid : t.isDir (cur ++ [n]) = true := by
      by_cases hp : p = []
      · subst hp
        simpa using h
      · exact isDir_above hne hp
    obtain ⟨j, hj⟩ := isDir_iff.mp hmid
    rw [← ih h]
    conv_lhs => rw [walk_eq]
    rw [Path.raw, List.map_cons, List.cons_append, walkFrom, if_pos hd]
    simp only [hj]
    rw [walk_eq]
    rfl

lemma realpath_under (h : t.isDir p = true) :
    t.realpath (p.raw ++ rest) = t.walk false maxLinks p rest := by
  rw [realpath, walk_under false (by simpa using h), List.nil_append]

lemma place_under (h : t.isDir p = true) :
    t.place (p.raw ++ rest) = t.walk true maxLinks p rest := by
  rw [place, walk_under true (by simpa using h), List.nil_append]

/-- A last name that is no link stands for itself. -/
lemma place_name (h : t.isDir p = true) (hl : ∀ s, t.get (p ++ [n]) ≠ some (.symlink s)) :
    t.place (p.raw ++ [Seg.name n]) = .ok (p ++ [n]) := by
  rw [place_under h, walk_eq, walkFrom, if_pos h]
  rcases hg : t.get (p ++ [n]) with _ | nd
  · simp
  · cases nd with
    | symlink s => exact absurd hg (hl s)
    | file => simp [walkFrom]
    | dir => simp [walkFrom]

lemma entryAt_under (h : Solid t p) :
    t.entryAt (p.raw ++ [Seg.name n]) = if t.isDir p then .ok (p, n) else .error .notdir := by
  have h1 : (Path.raw p ++ [Seg.name n]).getLast? = some (.name n) := by simp
  have h2 : (Path.raw p ++ [Seg.name n]).dropLast = p.raw := by simp
  unfold entryAt
  rw [h1, h2, realpath_raw h]
  rfl

lemma entryAt_name (h : t.isDir p = true) : t.entryAt (p.raw ++ [Seg.name n]) = .ok (p, n) := by
  rw [entryAt_under (solid_of_isDir h), if_pos h]

lemma entryAt_ok {raw : RawPath} (h : t.entryAt raw = .ok (p, n)) :
    t.isDir p = true ∧ t.realpath raw.dropLast = .ok p ∧ raw.getLast? = some (.name n) := by
  unfold entryAt at h
  split at h
  · next m hm =>
    cases hr : t.realpath raw.dropLast with
    | error e => simp [hr, bind, Except.bind] at h
    | ok r =>
      simp only [hr, bind, Except.bind] at h
      split at h
      · next hd =>
        cases h
        exact ⟨hd, rfl, hm⟩
      · cases h
  · cases hr : t.realpath raw.dropLast <;> simp [hr, bind, Except.bind] at h
  · cases h

/-! ### Lookups piece by piece -/

/-- A lookup that creates nothing takes the front of a path first. -/
lemma walk_append (t : Tree) (k : ℕ) (cur : Path) (a : RawPath) :
    ∃ j, ∀ b, t.walk false k cur (a ++ b) =
      (t.walk false k cur a >>= fun q => t.walk false j q b) := by
  have pass : ∀ (j : ℕ) (follow : Path → RawPath → Except Errno Path),
      t.walk false j = walkFrom t false follow →
      (∀ x a, ∃ i, ∀ b, follow x (a ++ b) = (follow x a >>= fun q => t.walk false i q b)) →
      ∀ a x, ∃ i, ∀ b, walkFrom t false follow x (a ++ b) =
        (walkFrom t false follow x a >>= fun q => t.walk false i q b) := by
    intro j follow hj hfollow a
    induction a with
    | nil => exact fun x => ⟨j, fun b => by rw [hj]; rfl⟩
    | cons seg a ih =>
      intro x
      by_cases hd : t.isDir x = true
      · cases seg with
        | blank | dot => simpa [walkFrom, hd] using ih x
        | dotdot => simpa [walkFrom, hd] using ih x.dropLast
        | name n =>
          rcases hg : t.get (x ++ [n]) with _ | nd
          · exact ⟨0, fun b => by simp [walkFrom, hd, hg, bind, Except.bind]⟩
          · cases nd with
            | symlink s => simpa [walkFrom, hd, hg] using hfollow _ (segsOf s ++ a)
            | file | dir => simpa [walkFrom, hd, hg] using ih (x ++ [n])
      · exact ⟨0, fun b => by simp [walkFrom, hd, bind, Except.bind]⟩
  induction k generalizing cur a with
  | zero => exact pass 0 _ rfl (fun _ _ => ⟨0, fun _ => rfl⟩) a cur
  | succ k ih => exact pass (k + 1) _ rfl (fun x a => ih x a) a cur

lemma realpath_append_error {a b : RawPath} {e : Errno} (h : t.realpath a = .error e) :
    t.realpath (a ++ b) = .error e := by
  obtain ⟨j, hj⟩ := walk_append t maxLinks [] a
  rw [realpath] at h
  rw [realpath, hj, h]
  rfl

/-- A path whose last name is free leads nowhere. -/
lemma realpath_free {a : RawPath} (h : t.realpath a = .ok p) (hd : t.isDir p = true)
    (hn : t.get (p ++ [n]) = none) : t.realpath (a ++ [Seg.name n]) = .error .noent := by
  obtain ⟨j, hj⟩ := walk_append t maxLinks [] a
  rw [realpath] at h
  rw [realpath, hj, h]
  change t.walk false j p _ = _
  rw [walk_eq]
  simp [walkFrom, hd, hn]

/-- A path whose last name is an entry and no link leads to it. -/
lemma realpath_snoc {a : RawPath} (h : t.realpath a = .ok p) (hd : t.isDir p = true)
    (hn : t.get (p ++ [n]) = some nd) (hl : nd.isSymlink = false) :
    t.realpath (a ++ [Seg.name n]) = .ok (p ++ [n]) := by
  obtain ⟨j, hj⟩ := walk_append t maxLinks [] a
  rw [realpath] at h
  rw [realpath, hj, h]
  change t.walk false j p _ = _
  exact walk_of_walks (.down hd hn hl .done)

/-- A dot or an empty piece after a directory changes nothing. -/
lemma realpath_trivial {a : RawPath} {seg : Seg} (h : t.realpath a = .ok p)
    (hd : t.isDir p = true) (hs : seg.isTrivial = true) : t.realpath (a ++ [seg]) = .ok p := by
  obtain ⟨j, hj⟩ := walk_append t maxLinks [] a
  rw [realpath] at h
  rw [realpath, hj, h]
  change t.walk false j p _ = _
  exact walk_of_walks (.stay hd hs .done)

/-- What a path leads through is a directory. -/
lemma isDir_of_realpath_snoc {a : RawPath} {seg : Seg} (h : t.realpath (a ++ [seg]) = .ok q) :
    ∃ p, t.realpath a = .ok p ∧ t.isDir p = true := by
  obtain ⟨r, h1, h2⟩ := (realpath_iff.mp h).split
  refine ⟨r, realpath_iff.mpr h1, ?_⟩
  cases h2 <;> assumption

/-! ### Lookups in a changed tree -/

/-- A lookup that succeeds goes the same way in a tree that kept the directories and the
links it may have followed, as long as what it arrived at is still there, or still free. -/
lemma Walks.stable {create' : Bool} (h : Walks t create k cur raw q) (hk : k ≤ maxLinks)
    (hdir : ∀ x, t.isDir x = true → t'.isDir x = true)
    (hlink : ∀ x s, t.get x = some (.symlink s) →
      (create = false → ∃ r, t.realpath x.raw = .ok r) → t'.get x = some (.symlink s))
    (hq : Solid t' q ∨ (create' = true ∧ t'.get q = none)) : Walks t' create' k cur raw q := by
  induction h with
  | done => exact .done
  | stay hd hs _ ih => exact .stay (hdir _ hd) hs (ih hk hq)
  | up hd _ ih => exact .up (hdir _ hd) (ih hk hq)
  | @down k cur n rest q nd hd hn hl hw ih =>
    by_cases hlast : rest = [] ∧ t'.get (cur ++ [n]) = none
    · obtain ⟨rfl, hnone⟩ := hlast
      cases hw
      rcases hq with ⟨nd', hn', -⟩ | ⟨hc, -⟩
      · rw [hnone] at hn'
        cases hn'
      · exact .free hc (hdir _ hd) hnone
    · have hmid : Solid t' (cur ++ [n]) := by
        cases hw with
        | done => exact hq.resolve_right fun h => hlast ⟨rfl, h.2⟩
        | stay hd' _ _ | up hd' _ | down hd' _ _ _ | free _ hd' _ | link hd' _ _ =>
          exact solid_of_isDir (hdir _ hd')
      obtain ⟨nd', hn', hl'⟩ := hmid
      exact .down (hdir _ hd) hn' hl' (ih hk hq)
  | free hc hd hn =>
    rcases hq with ⟨nd, hnd, hl⟩ | ⟨hc', hnone⟩
    · exact .down (hdir _ hd) hnd hl .done
    · exact .free hc' (hdir _ hd) hnone
  | @link k cur n rest q target hd hn hw ih =>
    refine .link (hdir _ hd) (hlink _ _ hn fun hc => ?_) (ih (by omega) hq)
    -- the link leads somewhere, since the lookup got past it
    subst hc
    obtain ⟨r, hr, -⟩ := @Walks.split _ _ _ _ _ [.name n] rest (.link hd hn hw)
    refine ⟨r, ?_⟩
    rw [raw_append, realpath_under hd]
    exact walk_of_walks (hr.more hk)

/-- Trees that differ only at `p`, which is neither a directory nor a link: lookups that
arrive elsewhere agree, and those that arrive at `p` do if it is there in both. -/
lemma walks_agree {create create' : Bool} (h : ∀ x, x ≠ p → t'.get x = t.get x)
    (hp : t.isDir p = false) (hl : ∀ s, t.get p ≠ some (.symlink s))
    (hw : Walks t create maxLinks [] raw q) (hs : q = p → Solid t' p)
    (hc : create = true → create' = true) : Walks t' create' maxLinks [] raw q := by
  refine hw.stable le_rfl (fun x hx => ?_) (fun x s hx _ => ?_) ?_
  · have hne : x ≠ p := by
      rintro rfl
      rw [hx] at hp
      cases hp
    obtain ⟨i, hi⟩ := isDir_iff.mp hx
    exact isDir_iff.mpr ⟨i, by rw [h x hne, hi]⟩
  · have hne : x ≠ p := by
      rintro rfl
      exact hl s hx
    rw [h x hne, hx]
  · by_cases hqp : q = p
    · exact .inl (hqp ▸ hs hqp)
    · rcases hw.arrives t.solid_root with ⟨nd', hn', hl'⟩ | ⟨hcr, hn, -⟩
      · exact .inl ⟨nd', by rw [h q hqp, hn'], hl'⟩
      · exact .inr ⟨hc hcr, by rw [h q hqp, hn]⟩

lemma realpath_agree (h : ∀ x, x ≠ p → t'.get x = t.get x) (hp : t.isDir p = false)
    (hl : ∀ s, t.get p ≠ some (.symlink s)) (hq : t.realpath raw = .ok q)
    (hs : q = p → Solid t' p) : t'.realpath raw = .ok q :=
  realpath_iff.mpr (walks_agree h hp hl (realpath_iff.mp hq) hs id)

end Tree

end MouseKeeper.Posix
