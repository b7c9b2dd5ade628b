import MouseKeeper.Contracts.Common

/-!
The patterns of paths that a policy excludes.
-/

namespace MouseKeeper.Storage.Globs

open Contracts (trim slashed isLineTerminator)

inductive Part
  | anything
  | name
  | one
  | character (c : Char)
  deriving DecidableEq, Repr

/-- `globRegex`. -/
def parts : List Char → List Part
  | '*' :: '*' :: rest => .anything :: parts rest
  | '*' :: rest => .name :: parts rest
  | '?' :: rest => .one :: parts rest
  | c :: rest => .character c :: parts rest
  | [] => []

/-- Any number of characters of a kind, and then what follows. -/
def star (kind : Char → Bool) (next : List Char → Bool) : List Char → Bool
  | [] => next []
  | c :: s => next (c :: s) || (kind c && star kind next s)

def Part.test : List Part → List Char → Bool
  | [], s => s = []
  | .anything :: g, s => star (fun c => !isLineTerminator c) (Part.test g) s
  | .name :: g, s => star (· ≠ '/') (Part.test g) s
  | .one :: g, c :: s => c ≠ '/' && Part.test g s
  | .character a :: g, c :: s => c = a && Part.test g s
  | .one :: _, [] | .character _ :: _, [] => false

def matchesExcludedPattern (relativePath : String) (patterns : List String) : Bool :=
  patterns.any fun pattern =>
    Part.test (parts ((trim pattern).toList.map slashed)) (relativePath.toList.map slashed)

example : matchesExcludedPattern "docs/a/b.tmp" ["docs/**.tmp"] := by decide +kernel

end MouseKeeper.Storage.Globs
