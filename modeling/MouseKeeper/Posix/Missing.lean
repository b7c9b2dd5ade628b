import MouseKeeper.Posix.Disk

/-!
Directories missing on a path.

`create_dir_all` tries the whole path first and goes back only as far as it must. What it
makes can be read off the path from the top: a name that is free is made a directory, and
the next one is looked for in it.
-/

namespace MouseKeeper.Posix

open Trace

namespace Tree

/-- Takes a path one part further: what is missing there, and the tree with it made. There is
no such tree if the path cannot be a directory. -/
def enter (t : Tree) (raw : RawPath) : List Path × Option Tree :=
  if t.isDirAt raw then ([], some t)
  else
    match t.entryAt raw with
    | .ok (p, n) =>
      if t.get (p ++ [n]) = none then ([p ++ [n]], t.set (p ++ [n]) (.dir 0)) else ([], none)
    | .error _ => ([], none)

/-- The same for a whole path, its last part standing first. -/
def missingRev (t : Tree) : List Seg → List Path × Option Tree
  | [] => ([], some t)
  | seg :: rest =>
    match missingRev t rest with
    | (l, none) => (l, none)
    | (l, some t') =>
      let x := t'.enter (seg :: rest).reverse
      (l ++ x.1, x.2)

/-- The places at which a directory is missing on a path. -/
def missing (t : Tree) (raw : RawPath) : List Path := (t.missingRev raw.reverse).1

/-- The same up to the numbers of directories. -/
def SameShape (t t' : Tree) : Prop :=
  ∀ x, t'.get x = t.get x ∨ t.isDir x = true ∧ t'.isDir x = true

variable {t t' : Tree} {p q : Path} {n : Name} {raw : RawPath} {seg : Seg} {l : List Seg}
  {ino : ℕ} {e : Errno}

/-! ### Trees of one shape -/

lemma SameShape.refl (t : Tree) : SameShape t t := fun _ => .inl rfl

lemma SameShape.symm (h : SameShape t t') : SameShape t' t := fun x =>
  (h x).imp Eq.symm And.symm

lemma SameShape.isDir (h : SameShape t t') (hp : t.isDir p = true) : t'.isDir p = true := by
  rcases h p with he | ⟨-, h'⟩
  · exact (Change.isDir_of_get he).trans hp
  · exact h'

lemma SameShape.free (h : SameShape t t') (hp : t.get p = none) : t'.get p = none := by
  rcases h p with he | ⟨hd, -⟩
  · rw [he, hp]
  · exact absurd hp (get_ne_none_of_isDir hd)

lemma SameShape.realpath (h : SameShape t t') (hq : t.realpath raw = .ok q) :
    t'.realpath raw = .ok q := by
  obtain ⟨nd, hnd, hl⟩ := realpath_arrives hq
  refine realpath_iff.mpr ((realpath_iff.mp hq).stable le_rfl (fun _ => h.isDir)
    (fun x s hx _ => ?_) (.inl ?_))
  · rcases h x with he | ⟨hd, -⟩
    · rw [he, hx]
    · obtain ⟨i, hi⟩ := isDir_iff.mp hd
      rw [hx] at hi
      cases hi
  · rcases h q with he | ⟨-, hd⟩
    · exact ⟨nd, he.trans hnd, hl⟩
    · exact solid_of_isDir hd

lemma SameShape.entryAt (h : SameShape t t') (he : t.entryAt raw = .ok (p, n)) :
    t'.entryAt raw = .ok (p, n) := by
  obtain ⟨hd, hr, hl⟩ := entryAt_ok he
  simp only [Tree.entryAt, hl, h.realpath hr, bind, Except.bind, h.isDir hd, if_true]

lemma isDirAt_iff : t.isDirAt raw = true ↔ ∃ p, t.realpath raw = .ok p ∧ t.isDir p = true := by
  unfold isDirAt
  cases t.realpath raw <;> simp

lemma SameShape.isDirAt (h : SameShape t t') : t'.isDirAt raw = t.isDirAt raw := by
  rw [Bool.eq_iff_iff, isDirAt_iff, isDirAt_iff]
  exact ⟨fun ⟨p, hp, hd⟩ => ⟨p, h.symm.realpath hp, h.symm.isDir hd⟩,
    fun ⟨p, hp, hd⟩ => ⟨p, h.realpath hp, h.isDir hd⟩⟩

/-! ### One part of a path -/

/-- Where no name is free nothing is missing. -/
lemma enter_taken (h : ∀ p n, t.entryAt raw = .ok (p, n) → t.get (p ++ [n]) ≠ none) :
    t.enter raw = ([], if t.isDirAt raw then some t else none) := by
  unfold enter
  split
  · rfl
  · split
    · next p n he => rw [if_neg (h p n he)]
    · rfl

lemma set_dir (i : ℕ) (hd : t.isDir p = true) (hn : t.get (p ++ [n]) = none) :
    ∃ t', t.set (p ++ [n]) (.dir i) = some t' := by
  refine set_some _ (by simp) (by simpa using hd) ?_
  unfold isDir
  rw [hn]

/-- A free name is missing. -/
lemma enter_free (he : t.entryAt raw = .ok (p, n)) (hn : t.get (p ++ [n]) = none) :
    ∃ t', t.enter raw = ([p ++ [n]], some t') ∧
      ∀ x, t'.get x = if x = p ++ [n] then some (.dir 0) else t.get x := by
  obtain ⟨hd, hr, hl⟩ := entryAt_ok he
  have hraw : raw = raw.dropLast ++ [.name n] := by
    obtain ⟨r, rfl⟩ := List.getLast?_eq_some_iff.mp hl
    simp
  have hno : t.isDirAt raw = false := by
    rw [Bool.eq_false_iff]
    intro hc
    obtain ⟨q, hq, -⟩ := isDirAt_iff.mp hc
    rw [hraw, realpath_free hr hd hn] at hq
    cases hq
  obtain ⟨t', ht⟩ := set_dir 0 hd hn
  refine ⟨t', ?_, set_get ht⟩
  simp only [enter, hno, he, hn, ht, if_true, Bool.false_eq_true, if_false]

lemma mkdir_free (ino : ℕ) (he : t.entryAt raw = .ok (p, n)) (hn : t.get (p ++ [n]) = none) :
    ∃ t', t.mkdir raw ino = .ok (.makeDir (p ++ [n]), t') ∧
      ∀ x, t'.get x = if x = p ++ [n] then some (.dir ino) else t.get x := by
  obtain ⟨t', ht⟩ := set_dir ino (entryAt_ok he).1 hn
  exact ⟨t', by simp [mkdir, he, hn, ht, orNoent, bind, Except.bind], set_get ht⟩

lemma mkdir_error (h : t.mkdir raw ino = .error e) :
    ∀ p n, t.entryAt raw = .ok (p, n) → t.get (p ++ [n]) ≠ none := by
  intro p n he hn
  obtain ⟨t', ht, -⟩ := mkdir_free ino he hn
  rw [ht] at h
  cases h

/-! ### Paths that lead somewhere, or are barred -/

lemma missingRev_cons {m : List Path} (h : t.missingRev l = (m, some t')) :
    t.missingRev (seg :: l) =
      (m ++ (t'.enter (seg :: l).reverse).1, (t'.enter (seg :: l).reverse).2) := by
  simp [missingRev, h]

lemma missingRev_cons_some (h : t.missingRev l = ([], some t')) :
    t.missingRev (seg :: l) = t'.enter (seg :: l).reverse := missingRev_cons h

lemma missingRev_cons_none {m : List Path} (h : t.missingRev l = (m, none)) :
    t.missingRev (seg :: l) = (m, none) := by
  simp [missingRev, h]

lemma snoc_taken {a : RawPath} (h : t.realpath (a ++ [seg]) ≠ .error .noent) :
    t.enter (a ++ [seg]) = ([], if t.isDirAt (a ++ [seg]) then some t else none) := by
  refine enter_taken fun p n he hn => h ?_
  obtain ⟨hd, hr, hlast⟩ := entryAt_ok he
  rw [List.dropLast_concat] at hr
  rw [List.getLast?_concat, Option.some.injEq] at hlast
  rw [hlast, realpath_free hr hd hn]

/-- Where an entry is found nothing is missing. -/
lemma missingRev_of_realpath (h : t.realpath l.reverse = .ok q) :
    t.missingRev l = ([], if t.isDir q then some t else none) := by
  induction l generalizing q with
  | nil =>
    cases h
    simp [missingRev]
  | cons seg l ih =>
    rw [List.reverse_cons] at h
    obtain ⟨p, hp, hd⟩ := isDir_of_realpath_snoc h
    have hl := ih hp
    rw [if_pos hd] at hl
    rw [missingRev_cons_some hl, List.reverse_cons, snoc_taken (by rw [h]; simp)]
    simp [isDirAt, h]

/-- Where the way is barred nothing is missing, and there can be no directory. -/
lemma missingRev_barred (h : t.realpath l.reverse = .error e) (he : e ≠ .noent) :
    t.missingRev l = ([], none) := by
  induction l with
  | nil => cases h
  | cons seg l ih =>
    rw [List.reverse_cons] at h
    cases hr : t.realpath l.reverse with
    | error e' =>
      rw [realpath_append_error hr] at h
      cases h
      exact missingRev_cons_none (ih hr)
    | ok p =>
      have hl := missingRev_of_realpath hr
      by_cases hd : t.isDir p = true
      · rw [if_pos hd] at hl
        rw [missingRev_cons_some hl, List.reverse_cons, snoc_taken (by rw [h]; simpa using he)]
        simp [isDirAt, h]
      · rw [if_neg hd] at hl
        exact missingRev_cons_none hl

/-- Where `mkdir` fails, and not because the path leads nowhere, nothing is missing. -/
lemma missingRev_of_mkdir (h : t.mkdir (seg :: l).reverse ino = .error e) (he : e ≠ .noent)
    (hs : seg.isTrivial = false) :
    t.missingRev (seg :: l) = ([], if t.isDirAt (seg :: l).reverse then some t else none) := by
  have htaken := mkdir_error h
  cases hr : t.realpath l.reverse with
  | error e' =>
    have hent : t.entryAt (seg :: l).reverse = .error e' := by
      rw [List.reverse_cons]
      cases seg with
      | blank | dot => cases hs
      | dotdot | name => simp [entryAt, hr, bind, Except.bind]
    simp only [mkdir, hent, bind, Except.bind, Except.error.injEq] at h
    subst h
    rw [missingRev_cons_none (missingRev_barred hr he), isDirAt, List.reverse_cons,
      realpath_append_error hr]
    rfl
  | ok p =>
    have hl := missingRev_of_realpath hr
    by_cases hd : t.isDir p = true
    · rw [if_pos hd] at hl
      rw [missingRev_cons_some hl, enter_taken htaken]
    · rw [if_neg hd] at hl
      have hno : t.isDirAt (seg :: l).reverse = false := by
        rw [Bool.eq_false_iff, List.reverse_cons]
        intro hc
        obtain ⟨q, hq, -⟩ := isDirAt_iff.mp hc
        obtain ⟨p', hp', hd'⟩ := isDir_of_realpath_snoc hq
        rw [hr] at hp'
        cases hp'
        exact hd hd'
      rw [missingRev_cons_none hl, hno]
      rfl

/-- A path whose directories have been made leads to one. -/
lemma isDirAt_of_missingRev (h : (t.missingRev l).2 = some t') : t'.isDirAt l.reverse = true := by
  cases l with
  | nil =>
    cases h
    exact t.isDir_root
  | cons seg l =>
    rw [missingRev] at h
    split at h
    · cases h
    · next m t₁ _ =>
      dsimp only at h
      unfold enter at h
      split at h
      · next hd => cases h; exact hd
      · split at h
        · next p n he =>
          split at h
          · next hn =>
            obtain ⟨hd, hr, hlast⟩ := entryAt_ok he
            have hget := set_get h
            have hg : Disk.Grown t₁ t' := fun x => by
              rw [hget]
              split
              · next hx => exact .inr ⟨hx ▸ hn, 0, rfl⟩
              · exact .inl rfl
            obtain ⟨r, hraw⟩ := List.getLast?_eq_some_iff.mp hlast
            rw [hraw, List.dropLast_concat] at hr
            rw [isDirAt, hraw]
            have hnew : t'.get (p ++ [n]) = some (.dir 0) := by rw [hget, if_pos rfl]
            rw [realpath_snoc (hg.walks hr) (hg.isDir hd) hnew rfl]
            exact isDir_iff.mpr ⟨0, hnew⟩
          · cases h
        · cases h

lemma missingRev_trivial (hs : seg.isTrivial = true) :
    t.missingRev (seg :: l) = t.missingRev l := by
  rcases hl : t.missingRev l with ⟨m, _ | t'⟩
  · exact missingRev_cons_none hl
  · have hd : t'.isDirAt (seg :: l).reverse = true := by
      obtain ⟨p, hp, hd⟩ := isDirAt_iff.mp (isDirAt_of_missingRev (congrArg Prod.snd hl))
      rw [List.reverse_cons]
      exact isDirAt_iff.mpr ⟨p, realpath_trivial hp hd hs, hd⟩
    simp only [missingRev, hl, enter, hd, if_true, List.append_nil]

/-- If anything is missing on a path, the last directory is, and nothing is in it. -/
lemma fresh_of_missingRev {m : List Path} (h : t.missingRev l = (m, some t')) (hm : m ≠ [])
    (hl : Seg.dotdot ∉ l) :
    ∃ p, t'.realpath l.reverse = .ok p ∧ ∀ n, t'.get (p ++ [n]) = none := by
  induction l generalizing m t' with
  | nil =>
    cases h
    exact absurd rfl hm
  | cons seg l ih =>
    rw [List.mem_cons, not_or] at hl
    rw [missingRev] at h
    split at h
    · cases h
    · next m₁ t₁ h₁ =>
      have hm' : m₁ ++ (t₁.enter (seg :: l).reverse).1 = m := congrArg Prod.fst h
      have ht' : (t₁.enter (seg :: l).reverse).2 = some t' := congrArg Prod.snd h
      have hdir := isDirAt_of_missingRev (congrArg Prod.snd h₁)
      obtain ⟨p, hp, hd⟩ := isDirAt_iff.mp hdir
      rw [List.reverse_cons] at hm' ht' ⊢
      by_cases hat : t₁.isDirAt (l.reverse ++ [seg]) = true
      · -- this part is there, so one above it was missing and is empty
        simp only [enter, hat, if_true, Option.some.injEq] at hm' ht'
        subst ht'
        rw [List.append_nil] at hm'
        obtain ⟨p', hp', hfree⟩ := ih h₁ (hm' ▸ hm) hl.2
        rw [hp] at hp'
        cases hp'
        cases seg with
        | blank | dot => exact ⟨p, realpath_trivial hp hd rfl, hfree⟩
        | dotdot => exact absurd rfl hl.1
        | name n =>
          obtain ⟨q, hq, -⟩ := isDirAt_iff.mp hat
          rw [realpath_free hp hd (hfree n)] at hq
          cases hq
      · unfold enter at ht'
        rw [if_neg hat] at ht'
        split at ht'
        · next q n he =>
          split at ht'
          · next hn =>
            obtain ⟨hqd, hq, hlast⟩ := entryAt_ok he
            rw [List.dropLast_concat] at hq
            rw [List.getLast?_concat, Option.some.injEq] at hlast
            have hget := set_get ht'
            have hg : Disk.Grown t₁ t' := fun x => by
              rw [hget]
              split
              · next hx => exact .inr ⟨hx ▸ hn, 0, rfl⟩
              · exact .inl rfl
            have hnew : t'.get (q ++ [n]) = some (.dir 0) := by rw [hget, if_pos rfl]
            rw [hlast, realpath_snoc (hg.walks hq) (hg.isDir hqd) hnew rfl]
            refine ⟨_, rfl, fun x => ?_⟩
            rw [hget, if_neg (by simp)]
            by_contra hx
            exact absurd hn (get_ne_none_of_isDir (isDir_parent hx))
          · cases ht'
        · cases ht'

end Tree

/-! ### What `create_dir_all` makes -/

namespace Disk

open Tree

variable {k : Kernel} {d : Disk} {raw : RawPath} {l : List Seg}

/-- The places at which a program makes directories. -/
def madeBy (m : DiskProg Unit) (d : Disk) : List Path :=
  (m.run d).steps.flatMap fun x => x.1.places

/-- A program makes the directories listed, and succeeds if there is a tree with them. -/
structure Makes (m : DiskProg Unit) (d : Disk) (x : List Path × Option Tree) : Prop where
  places : madeBy m d = x.1
  ends : ∀ t, x.2 = some t → ∃ d', Ends m d () d' ∧ SameShape t d'.tree
  fails : x.2 = none → ∃ e, (m.run d).result = .error e

lemma makes_done {m : DiskProg Unit} {t : Tree} (h : SameShape t d.tree)
    (hm : m.run d = ⟨.ok (), []⟩) : Makes m d ([], some t) := by
  refine ⟨by rw [madeBy, hm]; rfl, fun u hu => ?_, nofun⟩
  cases hu
  exact ⟨d, ⟨by rw [hm], by rw [Prog.final, hm]; rfl⟩, h⟩

lemma makes_error {m : DiskProg Unit} {e : Errno} (h : m.run d = ⟨.error e, []⟩) :
    Makes m d ([], none) :=
  ⟨by rw [madeBy, h]; rfl, nofun, fun _ => ⟨e, by rw [h]⟩⟩

/-- One directory made, in a tree of the shape of `t`. -/
lemma makes_mkdir {t t' t'' : Tree} {m : DiskProg Unit} {p : Path} {i : ℕ}
    (h : SameShape t d.tree) (hm : m.run d = ⟨.ok (), [(.makeDir p, ⟨t', d.tick + 1⟩)]⟩)
    (ht' : ∀ x, t'.get x = if x = p then some (.dir i) else d.tree.get x)
    (ht'' : ∀ x, t''.get x = if x = p then some (.dir 0) else t.get x) :
    Makes m d ([p], some t'') := by
  refine ⟨by rw [madeBy, hm]; rfl, fun u hu => ?_, nofun⟩
  cases hu
  refine ⟨⟨t', d.tick + 1⟩, ⟨by rw [hm], by rw [Prog.final, hm]; rfl⟩, fun x => ?_⟩
  by_cases hx : x = p
  · exact .inr ⟨isDir_iff.mpr ⟨0, by rw [ht'', if_pos hx]⟩,
      isDir_iff.mpr ⟨i, by rw [ht', if_pos hx]⟩⟩
  · rcases h x with he | ⟨h1, h2⟩
    · exact .inl (by rw [ht', ht'', if_neg hx, if_neg hx, he])
    · exact .inr ⟨(Change.isDir_of_get (by rw [ht'', if_neg hx])).trans h1,
        (Change.isDir_of_get (by rw [ht', if_neg hx])).trans h2⟩

lemma run_dirOrError (e : Errno) :
    (Prog.check fun d => if d.tree.isDirAt raw then .ok () else .error e : DiskProg Unit).run d =
      if d.tree.isDirAt raw then ⟨.ok (), []⟩ else ⟨.error e, []⟩ := by
  simp only [Prog.check]
  split <;> rfl

/-- No directory made: it is there, or there is an error. -/
lemma makes_dirOrError {m : DiskProg Unit} {t : Tree} {e : Errno} (h : SameShape t d.tree)
    (hm : m.run d = if d.tree.isDirAt raw then ⟨.ok (), []⟩ else ⟨.error e, []⟩) :
    Makes m d ([], if t.isDirAt raw then some t else none) := by
  rw [h.isDirAt] at hm
  by_cases hd : t.isDirAt raw = true
  · rw [if_pos hd] at hm ⊢
    exact makes_done h hm
  · rw [if_neg hd] at hm ⊢
    exact makes_error hm

/-- The last attempt at a directory. -/
lemma makes_mkdirOrDir {t : Tree} (h : SameShape t d.tree) :
    Makes (mkdirOrDir k raw) d (t.enter raw) := by
  unfold mkdirOrDir
  cases hm : d.tree.mkdir raw (k.ino d.tick) with
  | error e =>
    have hrun : (mkdir k raw).run d = ⟨.error e, []⟩ := run_call_error hm
    rw [enter_taken fun p n he hn => mkdir_error hm p n (h.entryAt he) (h.free hn)]
    exact makes_dirOrError h ((run_attempt_bind hrun).trans (run_dirOrError e))
  | ok x =>
    obtain ⟨c, t'⟩ := x
    have hrun : (mkdir k raw).run d = ⟨.ok (), [(c, ⟨t', d.tick + 1⟩)]⟩ := run_call_ok hm
    obtain ⟨p, n, he, rfl, hn, hget⟩ := mkdir_ok hm
    obtain ⟨t₁, ht₁, hget₁⟩ := enter_free (h.symm.entryAt he) (h.symm.free hn)
    rw [ht₁]
    exact makes_mkdir h (run_attempt_bind hrun) hget hget₁

lemma Makes.congr {m m' : DiskProg Unit} {x : List Path × Option Tree}
    (h : m.run d = m'.run d) (hm : Makes m' d x) : Makes m d x := by
  refine ⟨by rw [madeBy, h]; exact hm.places, fun t ht => ?_,
    fun hx => by rw [h]; exact hm.fails hx⟩
  obtain ⟨d', hd', hs⟩ := hm.ends t ht
  exact ⟨d', by rwa [Ends, Prog.final, h], hs⟩

/-- One program after the other. -/
lemma Makes.bind {m m' : DiskProg Unit} {x : List Path × Option Tree}
    {y : Tree → List Path × Option Tree} (hm : Makes m d x)
    (hm' : ∀ t d', SameShape t d'.tree → Makes m' d' (y t)) :
    Makes (m >>= fun _ => m') d (match x with
      | (l, none) => (l, none)
      | (l, some t) => (l ++ (y t).1, (y t).2)) := by
  obtain ⟨l, o⟩ := x
  cases o with
  | none =>
    obtain ⟨e, he⟩ := hm.fails rfl
    have hrun := run_bind_error (f := fun _ => m') he
    exact ⟨by rw [madeBy, hrun]; exact hm.places, nofun, fun _ => ⟨e, by rw [hrun]⟩⟩
  | some t =>
    obtain ⟨d', hd', hs⟩ := hm.ends t rfl
    have hrun := run_bind_ok (f := fun _ => m') hd'
    have h' := hm' t d' hs
    refine ⟨?_, fun u hu => ?_, fun hy => ?_⟩
    · rw [madeBy, hrun, List.flatMap_append]
      exact congrArg₂ _ hm.places h'.places
    · obtain ⟨d'', hd'', hs'⟩ := h'.ends u hu
      exact ⟨d'', ends_bind.mpr ⟨(), d', hd', hd''⟩, hs'⟩
    · obtain ⟨e, he⟩ := h'.fails hy
      exact ⟨e, by rw [hrun]; exact he⟩

/-- **Making directories.** From whichever end it starts, `create_dir_all` makes what is
missing on the path. -/
theorem makes_createDirAllRev : Makes (createDirAllRev k l) d (d.tree.missingRev l) := by
  induction l with
  | nil => exact makes_done (.refl _) rfl
  | cons seg l ih =>
    rw [createDirAllRev]
    split
    · next hs =>
      rw [missingRev_trivial hs]
      exact ih
    · next hs =>
      dsimp only
      cases hm : d.tree.mkdir (seg :: l).reverse (k.ino d.tick) with
      | ok x =>
        obtain ⟨c, t'⟩ := x
        have hrun : (mkdir k (seg :: l).reverse).run d = ⟨.ok (), [(c, ⟨t', d.tick + 1⟩)]⟩ :=
          run_call_ok hm
        obtain ⟨p, n, hent, rfl, hn, hget⟩ := mkdir_ok hm
        obtain ⟨hd, hr, -⟩ := entryAt_ok hent
        rw [List.reverse_cons, List.dropLast_concat] at hr
        have hl := missingRev_of_realpath hr
        rw [if_pos hd] at hl
        obtain ⟨t₁, ht₁, hget₁⟩ := enter_free hent hn
        rw [missingRev_cons_some hl, ht₁]
        exact makes_mkdir (.refl _) (run_attempt_bind hrun) hget hget₁
      | error e =>
        have hrun : (mkdir k (seg :: l).reverse).run d = ⟨.error e, []⟩ := run_call_error hm
        by_cases he : e = .noent
        · subst he
          refine Makes.congr (run_attempt_bind hrun) (ih.bind fun t d' h => ?_)
          exact makes_mkdirOrDir h
        · rw [missingRev_of_mkdir hm he (by simpa using hs)]
          refine makes_dirOrError (e := e) (.refl _) ((run_attempt_bind hrun).trans ?_)
          cases e <;> first | exact absurd rfl he | exact run_dirOrError _

/-- Where the directory is there already, `create_dir_all` succeeds. -/
lemma ends_createDirAll (h : d.tree.isDirAt raw = true) :
    ∃ d', Ends (createDirAll k raw) d () d' ∧ SameShape d.tree d'.tree := by
  obtain ⟨p, hp, hd⟩ := isDirAt_iff.mp h
  have hm := missingRev_of_realpath (l := raw.reverse) (by rwa [List.reverse_reverse])
  rw [if_pos hd] at hm
  exact makes_createDirAllRev.ends d.tree (by rw [hm])

/-- `create_dir_all` changes nothing, or the directory that it leaves is empty. -/
lemma createDirAll_fresh {d' : Disk} (h : Ends (createDirAll k raw) d () d')
    (hraw : Seg.dotdot ∉ raw) :
    d' = d ∨ ∃ p, d'.tree.realpath raw = .ok p ∧ ∀ n, d'.tree.get (p ++ [n]) = none := by
  have hmakes : Makes (createDirAll k raw) d (d.tree.missingRev raw.reverse) :=
    makes_createDirAllRev
  rcases hx : d.tree.missingRev raw.reverse with ⟨m, _ | t⟩
  · obtain ⟨e, he⟩ := hmakes.fails (congrArg Prod.snd hx)
    rw [h.1] at he
    cases he
  · obtain ⟨d₁, hd₁, hshape⟩ := hmakes.ends t (congrArg Prod.snd hx)
    obtain ⟨-, rfl⟩ := h.unique hd₁
    by_cases hm : m = []
    · -- no directory is missing, so there is no step
      left
      have hplaces : madeBy (createDirAll k raw) d = [] := by rw [hmakes.places, hx, hm]
      have hsteps : Follows MakesDir (createDirAll k raw) d := follows_createDirAll
      unfold Follows at hsteps
      obtain ⟨-, rfl⟩ := h
      unfold madeBy at hplaces
      unfold Prog.final
      cases hl : ((createDirAll k raw).run d).steps with
      | nil => rfl
      | cons x l =>
        rw [hl] at hsteps hplaces
        obtain ⟨⟨p, i, hp, -⟩, -⟩ := chain_cons.mp hsteps
        rw [List.flatMap_cons, hp] at hplaces
        cases hplaces
    · right
      obtain ⟨p, hp, hfree⟩ := fresh_of_missingRev hx hm (by simpa using hraw)
      rw [List.reverse_reverse] at hp
      exact ⟨p, hshape.realpath hp, fun n => hshape.free (hfree n)⟩

/-- The steps of `create_dir_all` are at the places that are missing. -/
lemma emits_createDirAll {P : Path → Prop} :
    Emits (At P) (createDirAll k raw) d ↔ ∀ p ∈ d.tree.missing raw, P p := by
  have h : madeBy (createDirAll k raw) d = d.tree.missing raw := makes_createDirAllRev.places
  rw [← h]
  unfold madeBy Emits At
  simp only [List.mem_flatMap, forall_exists_index, and_imp]
  exact ⟨fun h p x hx hp => h x hx p hp, fun h x hx p hp => h p x hx hp⟩

end Disk

end MouseKeeper.Posix
