import MouseKeeper.FileEngine.Sys

/-!
The path guard: which places a relative path text may stand for.
-/

namespace MouseKeeper.FileEngine

open Posix

inductive PathGuardError
  | rootNotDirectory (path : RawPath)
  | absoluteInput (path : String)
  | parentTraversal (path : String)
  | missingPath (path : RawPath)
  | escapesRoot (root resolved : RawPath)
  | io (message : String)
  deriving DecidableEq

def PathGuardError.toText : PathGuardError → String
  | .rootNotDirectory path => "managed root is not a directory: " ++ path.display
  | .absoluteInput path => "path must be relative to the managed root: " ++ path
  | .parentTraversal path => "path cannot contain parent traversal: " ++ path
  | .missingPath path => "path does not exist under managed root: " ++ path.display
  | .escapesRoot root resolved =>
    "resolved path escapes managed root: root=" ++ root.display ++ ", resolved=" ++
      resolved.display
  | .io message => message

/-- The canonical managed root. -/
structure PathGuard where
  root : Path

def canonicalizeExisting (t : Tree) (path : RawPath) : Except PathGuardError Path :=
  (t.realpath path).mapError fun e => .io e.toText

def PathGuard.new (t : Tree) (root : RawPath) : Except PathGuardError PathGuard := do
  let root ← canonicalizeExisting t root
  if t.isDir root then .ok ⟨root⟩ else .error (.rootNotDirectory root.raw)

def rejectUnsafeComponents (path : String) : Except PathGuardError Unit :=
  if isAbsolute path then .error (.absoluteInput path)
  else if Seg.dotdot ∈ segsOf path then .error (.parentTraversal path)
  else .ok ()

lemma mapError_eq_ok {ε ε' α : Type} {m : Except ε α} {f : ε → ε'} {a : α} :
    m.mapError f = .ok a ↔ m = .ok a := by
  cases m <;> simp [Except.mapError]

namespace PathGuard

def resolveExisting (g : PathGuard) (t : Tree) (relative : String) :
    Except PathGuardError Path := do
  rejectUnsafeComponents relative
  let candidate := join g.root relative
  let resolved ← (canonicalizeExisting t candidate).mapError fun _ => .missingPath candidate
  if g.root <+: resolved then .ok resolved
  else .error (.escapesRoot g.root.raw resolved.raw)

def resolveForCreate (g : PathGuard) (t : Tree) (relative : String) :
    Except PathGuardError Path := do
  rejectUnsafeComponents relative
  let candidate := join g.root relative
  match candidate.parent with
  | none => .error (.missingPath candidate)
  | some parent =>
    let resolved ← (canonicalizeExisting t parent).mapError fun _ => .missingPath parent
    if g.root <+: resolved then
      match candidate.fileName with
      | none => .error (.missingPath candidate)
      | some n => .ok (resolved ++ [n])
    else .error (.escapesRoot g.root.raw resolved.raw)

variable {g : PathGuard} {t : Tree} {relative : String} {p : Path}

lemma canonicalize_eq_ok {path : RawPath} :
    canonicalizeExisting t path = .ok p ↔ t.realpath path = .ok p := mapError_eq_ok

lemma rejectUnsafeComponents_ok {u : Unit} :
    rejectUnsafeComponents relative = .ok u ↔
      isAbsolute relative = false ∧ Seg.dotdot ∉ segsOf relative := by
  unfold rejectUnsafeComponents
  split
  · next h => simp [h]
  · next h =>
    split
    · next h' => simp [h']
    · next h' => simpa [h'] using h

/-- **Guard.** What the guard hands out for an existing path is there, and inside the root. -/
theorem resolveExisting_ok : g.resolveExisting t relative = .ok p ↔
    t.realpath (join g.root relative) = .ok p ∧ g.root <+: p ∧
      isAbsolute relative = false ∧ Seg.dotdot ∉ segsOf relative := by
  unfold resolveExisting
  simp only [bind_eq_ok, rejectUnsafeComponents_ok, mapError_eq_ok, canonicalize_eq_ok]
  constructor
  · rintro ⟨_, hr, q, hq, h⟩
    split at h
    · next hp => cases h; exact ⟨hq, hp, hr⟩
    · cases h
  · rintro ⟨hq, hp, hr⟩
    exact ⟨(), hr, p, hq, if_pos hp⟩

/-- **Guard.** What the guard hands out for a path to be created lies in an existing entry
inside the root. -/
theorem resolveForCreate_ok : g.resolveForCreate t relative = .ok p ↔
    (∃ parent r n, (join g.root relative).parent = some parent ∧ t.realpath parent = .ok r ∧
      g.root <+: r ∧ (join g.root relative).fileName = some n ∧ p = r ++ [n]) ∧
      isAbsolute relative = false ∧ Seg.dotdot ∉ segsOf relative := by
  unfold resolveForCreate
  simp only [bind_eq_ok, rejectUnsafeComponents_ok]
  constructor
  · rintro ⟨_, hr, h⟩
    refine ⟨?_, hr⟩
    split at h
    · cases h
    · next parent hparent =>
      simp only [bind_eq_ok, mapError_eq_ok, canonicalize_eq_ok] at h
      obtain ⟨q, hq, h⟩ := h
      split at h
      · next hp =>
        split at h
        · cases h
        · next n hn => cases h; exact ⟨parent, q, n, hparent, hq, hp, hn, rfl⟩
      · cases h
  · rintro ⟨⟨parent, r, n, hparent, hr, hin, hn, rfl⟩, hs⟩
    refine ⟨(), hs, ?_⟩
    rw [hparent]
    simp only [bind_eq_ok, mapError_eq_ok, canonicalize_eq_ok]
    exact ⟨r, hr, by rw [if_pos hin, hn]⟩

lemma resolveExisting_entry (h : g.resolveExisting t relative = .ok p) :
    t.Solid p := Tree.realpath_arrives (resolveExisting_ok.mp h).1

/-- A place to be created is a name under an entry that is no link. -/
lemma resolveForCreate_under (h : g.resolveForCreate t relative = .ok p) :
    ∃ r n, p = r ++ [n] ∧ t.Solid r := by
  obtain ⟨⟨_, r, n, -, hr, -, -, rfl⟩, -⟩ := resolveForCreate_ok.mp h
  exact ⟨r, n, rfl, Tree.realpath_arrives hr⟩

lemma resolveForCreate_inside (h : g.resolveForCreate t relative = .ok p) : g.root <+: p := by
  obtain ⟨⟨_, r, n, -, -, hr, -, rfl⟩, -⟩ := resolveForCreate_ok.mp h
  exact hr.trans (List.prefix_append r [n])

end PathGuard

lemma new_ok {t : Tree} {root : RawPath} {g : PathGuard} (h : PathGuard.new t root = .ok g) :
    t.realpath root = .ok g.root ∧ t.isDir g.root = true := by
  unfold PathGuard.new at h
  obtain ⟨r, hr, h⟩ := bind_eq_ok.mp h
  split at h
  · next hd =>
    cases h
    exact ⟨mapError_eq_ok.mp hr, hd⟩
  · cases h

/-- The guard of a canonical root is that root again. -/
lemma new_root {t : Tree} {p : Path} (h : t.isDir p = true) :
    PathGuard.new t p.raw = .ok ⟨p⟩ := by
  unfold PathGuard.new canonicalizeExisting
  rw [Tree.realpath_raw_dir h]
  simp [Except.mapError, h, bind, Except.bind]

end MouseKeeper.FileEngine
