import MouseKeeper.Trace
import MouseKeeper.Posix.Syscall

/-!
System calls as programs on a disk.

A disk is a tree and the number of changes made to it. What the system answers beyond the
tree, modification times and the numbers of new entries, may depend on that number in any
way.
-/

namespace MouseKeeper.Posix

open Trace

structure Disk where
  tree : Tree
  tick : ℕ

structure Kernel where
  mtime : ℕ → Option ℕ
  ino : ℕ → ℕ

abbrev DiskProg (α : Type) : Type := Prog Disk Change Errno α

namespace Disk

variable (k : Kernel)

def call (f : Disk → Except Errno (Change × Tree)) : DiskProg Unit :=
  Prog.step fun d => (f d).map fun x => ((), x.1, ⟨x.2, d.tick + 1⟩)

def mkdir (raw : RawPath) : DiskProg Unit :=
  call fun d => d.tree.mkdir raw (k.ino d.tick)

def createNew (raw : RawPath) : DiskProg Unit :=
  call fun d => d.tree.createNew raw (k.mtime d.tick) (k.ino d.tick)

def write (raw : RawPath) (content : Content) : DiskProg Unit :=
  call fun d => d.tree.write raw content (k.mtime d.tick) (k.ino d.tick)

def copy (src dst : RawPath) : DiskProg Unit :=
  call fun d => d.tree.copy src dst (k.mtime d.tick) (k.ino d.tick)

def rename (src dst : RawPath) : DiskProg Unit := call fun d => d.tree.rename src dst

def removeFile (raw : RawPath) : DiskProg Unit := call fun d => d.tree.unlink raw

def removeDir (raw : RawPath) : DiskProg Unit := call fun d => d.tree.rmdir raw

/-- `mkdir`, where an error does not count if the directory is there. -/
def mkdirOrDir (raw : RawPath) : DiskProg Unit := do
  match ← Prog.attempt (mkdir k raw) with
  | .ok _ => pure ()
  | .error e => Prog.check fun d => if d.tree.isDirAt raw then .ok () else .error e

/-- `fs::create_dir_all`, on the segments of the path from the last to the first: the parents
are made when the directory cannot be. -/
def createDirAllRev : List Seg → DiskProg Unit
  | [] => pure ()
  | seg :: rest =>
    if seg.isTrivial then createDirAllRev rest
    else do
      let raw := (seg :: rest).reverse
      match ← Prog.attempt (mkdir k raw) with
      | .ok _ => pure ()
      | .error .noent => do
        createDirAllRev rest
        mkdirOrDir k raw
      | .error e => Prog.check fun d => if d.tree.isDirAt raw then .ok () else .error e

def createDirAll (raw : RawPath) : DiskProg Unit := createDirAllRev k raw.reverse

/-! ### What the calls do -/

variable {k : Kernel} {d : Disk} {raw src dst : RawPath} {content : Content}

/-- One call that succeeded: its change, and one more change counted. -/
def Step (d : Disk) (c : Change) (d' : Disk) : Prop :=
  c.Applies d.tree d'.tree ∧ d'.tick = d.tick + 1

variable {f : Disk → Except Errno (Change × Tree)}

lemma run_call_ok {c : Change} {t : Tree} (h : f d = .ok (c, t)) :
    (call f).run d = ⟨.ok (), [(c, ⟨t, d.tick + 1⟩)]⟩ :=
  run_step_ok (by rw [h]; rfl)

lemma run_call_error {e : Errno} (h : f d = .error e) : (call f).run d = ⟨.error e, []⟩ :=
  run_step_error (by rw [h]; rfl)

lemma ends_call {u : Unit} {d' : Disk} :
    Ends (call f) d u d' ↔ ∃ c t, f d = .ok (c, t) ∧ d' = ⟨t, d.tick + 1⟩ := by
  unfold call
  rw [ends_step]
  cases hf : f d with
  | error e => simp [Except.map]
  | ok x => simp [Except.map, Prod.ext_iff, eq_comm]

lemma follows_call {R : Disk → Change → Disk → Prop}
    (h : ∀ c t, f d = .ok (c, t) → R d c ⟨t, d.tick + 1⟩) : Follows R (call f) d := by
  refine follows_step fun a c d' hf => ?_
  cases hx : f d with
  | error e => simp [hx, Except.map] at hf
  | ok x =>
    simp only [hx, Except.map, Except.ok.injEq, Prod.mk.injEq] at hf
    obtain ⟨-, rfl, rfl⟩ := hf
    exact h _ _ hx

lemma emits_call {P : Change → Prop} :
    Emits P (call f) d ↔ ∀ c t, f d = .ok (c, t) → P c := by
  unfold call
  rw [emits_step]
  cases hf : f d with
  | error e => simp [Except.map]
  | ok x => simp [Except.map, Prod.ext_iff]

/-- A step that makes a directory where nothing was. -/
def MakesDir (d : Disk) (c : Change) (d' : Disk) : Prop :=
  ∃ p i, c = .makeDir p ∧ p ≠ [] ∧ d.tree.get p = none ∧ d.tree.isDir p.dropLast = true ∧
    (∀ x, d'.tree.get x = if x = p then some (.dir i) else d.tree.get x) ∧
    d'.tick = d.tick + 1

lemma follows_mkdir : Follows MakesDir (mkdir k raw) d := by
  refine follows_call fun c t h => ?_
  obtain ⟨p, n, he, rfl, hn, hget⟩ := Tree.mkdir_ok h
  exact ⟨p ++ [n], _, rfl, by simp, hn, by simpa using (Tree.entryAt_ok he).1, hget, rfl⟩

lemma follows_createDirAllRev {l : List Seg} : Follows MakesDir (createDirAllRev k l) d := by
  induction l generalizing d with
  | nil => exact .nil
  | cons seg rest ih =>
    rw [createDirAllRev]
    split
    · exact ih
    · refine follows_attempt_bind follows_mkdir ?_
      split
      · exact .nil
      · refine follows_bind ih fun _ _ _ => ?_
        refine follows_attempt_bind follows_mkdir ?_
        split <;> exact .nil
      · exact .nil

lemma follows_createDirAll : Follows MakesDir (createDirAll k raw) d := follows_createDirAllRev

/-- Nothing that was there has changed, and all that is new is directories. -/
def Grown (t t' : Tree) : Prop :=
  ∀ x, t'.get x = t.get x ∨ (t.get x = none ∧ ∃ i, t'.get x = some (.dir i))

lemma Grown.refl (t : Tree) : Grown t t := fun _ => .inl rfl

lemma Grown.trans {t t' t'' : Tree} (h : Grown t t') (h' : Grown t' t'') : Grown t t'' := by
  intro x
  rcases h x with h1 | ⟨h1, i, h2⟩
  · rcases h' x with h3 | ⟨h3, h4⟩
    · exact .inl (h3.trans h1)
    · exact .inr ⟨h1 ▸ h3, h4⟩
  · rcases h' x with h3 | ⟨h3, -⟩
    · exact .inr ⟨h1, i, h3.trans h2⟩
    · rw [h2] at h3
      cases h3

lemma Grown.keeps {t t' : Tree} {x : Path} {nd : Node} (h : Grown t t')
    (hx : t.get x = some nd) : t'.get x = some nd := by
  rcases h x with h | ⟨h, -⟩
  · rw [h, hx]
  · rw [hx] at h
    cases h

lemma Grown.isDir {t t' : Tree} {x : Path} (h : Grown t t') (hx : t.isDir x = true) :
    t'.isDir x = true := by
  obtain ⟨i, hi⟩ := Tree.isDir_iff.mp hx
  exact Tree.isDir_iff.mpr ⟨i, h.keeps hi⟩

lemma MakesDir.grown {c : Change} {d' : Disk} (h : MakesDir d c d') : Grown d.tree d'.tree := by
  obtain ⟨p, i, -, -, hn, -, hget, -⟩ := h
  intro x
  rw [hget]
  split
  · next hx => exact .inr ⟨hx ▸ hn, i, rfl⟩
  · exact .inl rfl

lemma grown_of_follows {α : Type} {m : DiskProg α} (h : Follows MakesDir m d) :
    Grown d.tree (m.final d).tree :=
  h.keeps (I := fun d' => Grown d.tree d'.tree) (fun _ _ _ ha hab => ha.trans hab.grown)
    (.refl _)

lemma grown_createDirAll : Grown d.tree ((createDirAll k raw).final d).tree :=
  grown_of_follows follows_createDirAll

lemma grown_of_ends {d' : Disk} (h : Ends (createDirAll k raw) d () d') :
    Grown d.tree d'.tree := by
  obtain ⟨-, rfl⟩ := h
  exact grown_createDirAll

lemma Grown.walks {t t' : Tree} (h : Grown t t') {raw : RawPath} {p : Path}
    (hp : t.realpath raw = .ok p) : t'.realpath raw = .ok p := by
  obtain ⟨nd, hnd, hl⟩ := Tree.realpath_arrives hp
  exact Tree.realpath_iff.mpr ((Tree.realpath_iff.mp hp).stable le_rfl (fun x => h.isDir)
    (fun x s hx _ => h.keeps hx) (.inl ⟨nd, h.keeps hnd, hl⟩))

/-! ### Where the changes are -/

/-- All changes of a run are at places in `P`. -/
def At (P : Path → Prop) (c : Change) : Prop := ∀ p ∈ c.places, P p

variable {P : Path → Prop}

lemma emits_write : Emits (At P) (write k raw content) d ↔
    ∀ p, d.tree.place raw = .ok p → d.tree.isDir p = false → P p := by
  unfold write
  rw [emits_call]
  constructor
  · intro h p hp hd
    obtain ⟨old, t, hw⟩ := Tree.write_succeeds content (k.mtime d.tick) (k.ino d.tick) hp hd
    exact h _ _ hw p (by simp [Change.places])
  · intro h c t hw
    obtain ⟨p, old, i, hp, rfl, -⟩ := Tree.write_ok hw
    simp only [At, Change.places, List.mem_singleton, forall_eq]
    exact h p hp (Tree.write_not_dir hw hp)

lemma emits_copy : Emits (At P) (copy k src dst) d ↔ (d.tree.readFile src).isOk = true →
    ∀ p, d.tree.place dst = .ok p → d.tree.isDir p = false → P p := by
  unfold copy
  rw [emits_call]
  constructor
  · intro h hr p hp hd
    cases hb : d.tree.readFile src with
    | error e => simp [hb, Except.isOk, Except.toBool] at hr
    | ok b =>
      obtain ⟨q, m, i, hq, -⟩ := Tree.readFile_ok hb
      obtain ⟨old, t, hw⟩ := Tree.write_succeeds (if q = p then [] else b) (k.mtime d.tick)
        (k.ino d.tick) hp hd
      refine h (.write p old (if q = p then [] else b)) t ?_ p (by simp [Change.places])
      simp [Tree.copy, hb, hq, hp, bind, Except.bind, hw]
  · intro h c t hc
    obtain ⟨p, q, b, m, i, hp, hb, hq, hw⟩ := Tree.copy_ok hc
    have hr : (d.tree.readFile src).isOk = true := by
      simp [Tree.readFile, hp, hb, bind, Except.bind, Except.isOk, Except.toBool]
    obtain ⟨q', old, j, hq', rfl, -⟩ := Tree.write_ok hw
    simp only [At, Change.places, List.mem_singleton, forall_eq]
    rw [hq] at hq'
    cases hq'
    exact h hr q hq (Tree.write_not_dir hw hq)

lemma emits_mkdir {p : Path} {n : Name} (h : d.tree.Solid p)
    (hP : P (p ++ [n])) : Emits (At P) (mkdir k (Path.raw (p ++ [n]))) d := by
  unfold mkdir
  refine emits_call.mpr fun c t hc => ?_
  obtain ⟨-, rfl, -⟩ := Tree.mkdir_under h hc
  simpa [At, Change.places] using hP

lemma emits_createNew {p : Path} {n : Name}
    (h : d.tree.Solid p) (hP : P (p ++ [n])) :
    Emits (At P) (createNew k (Path.raw (p ++ [n]))) d := by
  unfold createNew
  refine emits_call.mpr fun c t hc => ?_
  obtain ⟨-, rfl, -⟩ := Tree.createNew_under h hc
  simpa [At, Change.places] using hP

lemma emits_rename {a p : Path} {n : Name} (ha : d.tree.get a ≠ none)
    (h : d.tree.Solid p) (hPa : P a) (hP : P (p ++ [n])) :
    Emits (At P) (rename a.raw (Path.raw (p ++ [n]))) d := by
  unfold rename
  refine emits_call.mpr fun c t hc => ?_
  obtain ⟨-, node, -, ⟨-, rfl, -⟩ | ⟨-, -, rfl, -⟩⟩ := Tree.rename_resolved ha h hc <;>
    simp [At, Change.places, hPa, hP]

end Disk

end MouseKeeper.Posix
