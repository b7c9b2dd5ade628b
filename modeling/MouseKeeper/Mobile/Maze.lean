import MouseKeeper.DepthFirst
import Mathlib.SetTheory.Cardinal.Finite

/-!
The maze of the mobile application.

The board is dug from the corner at the top left, cell by cell, in a random direction as long as
one leads to a cell that has not been visited, and else back along the way that was dug. Of each
cell the directions in which it is open are kept, as bits of a number.
-/

namespace MouseKeeper.Mobile.Maze

inductive MazeDirection
  | up | right | down | left
  deriving DecidableEq, Repr

@[ext] structure Point where
  x : ℤ
  y : ℤ
  deriving DecidableEq, Repr

namespace MazeDirection

def values : List MazeDirection := [.up, .right, .down, .left]

def delta : MazeDirection → Point
  | .up => ⟨0, -1⟩
  | .right => ⟨1, 0⟩
  | .down => ⟨0, 1⟩
  | .left => ⟨-1, 0⟩

def opposite : MazeDirection → MazeDirection
  | .up => .down
  | .right => .left
  | .down => .up
  | .left => .right

def index : MazeDirection → ℕ
  | .up => 0
  | .right => 1
  | .down => 2
  | .left => 3

def bit (d : MazeDirection) : ℕ := 1 <<< d.index

/-- What `shuffle` may make of the directions. -/
def Shuffle : Type := { directions : List MazeDirection // directions.Perm values }

end MazeDirection

open MazeDirection (Shuffle)

/-- The point next to this one. -/
def Point.next (p : Point) (d : MazeDirection) : Point := ⟨p.x + d.delta.x, p.y + d.delta.y⟩

/-! ### Lists that throw -/

section Lists

variable {α : Type}

def item (l : List α) (i : ℤ) : Option α := if 0 ≤ i then l[i.toNat]? else none

def setItem (l : List α) (i : ℤ) (a : α) : Option (List α) :=
  if 0 ≤ i ∧ i < l.length then some (l.set i.toNat a) else none

/-- `l[i] |= bits` -/
def orItem (l : List ℕ) (i : ℤ) (bits : ℕ) : Option (List ℕ) := do
  setItem l i ((← item l i) ||| bits)

end Lists

/-! ### Digging -/

def inside (size : ℤ) (p : Point) : Prop := 0 ≤ p.x ∧ 0 ≤ p.y ∧ p.x < size ∧ p.y < size

instance (size : ℤ) : DecidablePred (inside size) := fun _ => by unfold inside; infer_instance

def offset (size : ℤ) (p : Point) : ℤ := p.y * size + p.x

/-- The board while it is being dug; the stack has its top in front. -/
structure Digging where
  openings : List ℕ
  visited : List Bool
  stack : List Point

/-- The first of the directions that leads to a cell that has not been visited, with the cell. -/
def chooseNext (size : ℤ) (visited : List Bool) (current : Point) :
    List MazeDirection → Option (Option (Point × MazeDirection))
  | [] => some none
  | direction :: directions =>
    let candidate := current.next direction
    if candidate.x < 0 ∨ candidate.y < 0 ∨ candidate.x ≥ size ∨ candidate.y ≥ size then
      chooseNext size visited current directions
    else do
      if ← item visited (offset size candidate) then chooseNext size visited current directions
      else return some (candidate, direction)

/-- One turn of the loop. -/
def turn (size : ℤ) (directions : Shuffle) (s : Digging) : Option Digging :=
  match s.stack with
  | [] => none
  | current :: rest => do
    match ← chooseNext size s.visited current directions.1 with
    | none => return { s with stack := rest }
    | some (next, chosen) =>
      let openings ← orItem s.openings (offset size current) chosen.bit
      let openings ← orItem openings (offset size next) chosen.opposite.bit
      let visited ← setItem s.visited (offset size next) true
      return ⟨openings, visited, next :: s.stack⟩

/-- The loop, with the directions as they are shuffled in each turn. -/
def dig (size : ℤ) (shuffles : ℕ → Shuffle) : ℕ → ℕ → Digging → Option Digging
  | 0, _, s => if s.stack = [] then some s else none
  | fuel + 1, i, s =>
    if s.stack = [] then some s else (turn size (shuffles i) s).bind (dig size shuffles fuel (i + 1))

structure MazeBoard where
  size : ℤ
  openings : List ℕ
  deriving DecidableEq, Repr

/-- The board, or none where the call throws or the fuel runs out. -/
def MazeBoard.generate (assertions : Bool) (size : ℤ) (shuffles : ℕ → Shuffle) (fuel : ℕ) :
    Option MazeBoard :=
  if assertions ∧ ¬ size ≥ 4 then none
  else do
    let cells := (size * size).toNat
    let visited ← setItem (List.replicate cells false) 0 true
    let s ← dig size shuffles fuel 0 ⟨List.replicate cells 0, visited, [⟨0, 0⟩]⟩
    return ⟨size, s.openings⟩

def MazeBoard.canMove (board : MazeBoard) (position : Point) (direction : MazeDirection) :
    Option Bool := do
  return decide (((← item board.openings (offset board.size position)) &&& direction.bit) ≠ 0)

def MazeBoard.move (board : MazeBoard) (position : Point) (direction : MazeDirection) :
    Option Point := do
  if ← board.canMove position direction then return position.next direction
  else return position

/-! ### Lists of cells -/

section Lemmas

variable {α : Type} {size : ℤ} {l l' : List α} {p q : Point} {i j : ℤ} {a : α} {d e : MazeDirection}

@[simp] lemma opposite_opposite : d.opposite.opposite = d := by
  cases d <;> rfl

@[simp] lemma next_opposite : (p.next d).next d.opposite = p := by
  cases d <;> simp [Point.next, MazeDirection.delta, MazeDirection.opposite]

lemma bit_and_bit : d.bit &&& e.bit ≠ 0 ↔ d = e := by
  cases d <;> cases e <;> decide

lemma mem_values : d ∈ MazeDirection.values := by
  cases d <;> decide

/-- The cells have offsets of their own. -/
lemma offset_inj (hp : inside size p) (hq : inside size q) (h : offset size p = offset size q) :
    p = q := by
  obtain ⟨hpx, -, hpx', -⟩ := hp
  obtain ⟨hqx, -, hqx', -⟩ := hq
  have hsize : 0 < size := by omega
  have hrow : ∀ r : Point, 0 ≤ r.x → r.x < size → offset size r / size = r.y := fun r h0 h1 => by
    rw [offset, add_comm, Int.add_mul_ediv_right _ _ hsize.ne', Int.ediv_eq_zero_of_lt h0 h1,
      zero_add]
  have hy : p.y = q.y := by rw [← hrow p hpx hpx', ← hrow q hqx hqx', h]
  have hx : p.x = q.x := by
    unfold offset at h
    rw [hy] at h
    omega
  cases p
  cases q
  simp_all

lemma offset_nonneg (h : inside size p) : 0 ≤ offset size p := by
  obtain ⟨hx, hy, hx', -⟩ := h
  have : 0 ≤ p.y * size := mul_nonneg hy (by omega)
  unfold offset
  omega

lemma offset_lt (h : inside size p) : offset size p < size * size := by
  obtain ⟨-, hy, hx, hy'⟩ := h
  have : (p.y + 1) * size ≤ size * size := mul_le_mul_of_nonneg_right (by omega) (by omega)
  rw [add_mul, one_mul] at this
  unfold offset
  omega

lemma item_isSome (h : inside size p) (hl : (l.length : ℤ) = size * size) :
    ∃ a, item l (offset size p) = some a := by
  have hlt := offset_lt h
  have hnn := offset_nonneg h
  rw [item, if_pos hnn]
  exact ⟨_, List.getElem?_eq_getElem (by omega)⟩

lemma setItem_isSome (h : inside size p) (hl : (l.length : ℤ) = size * size) :
    ∃ l', setItem l (offset size p) a = some l' :=
  ⟨_, if_pos ⟨offset_nonneg h, hl ▸ offset_lt h⟩⟩

lemma item_of_setItem (h : setItem l i a = some l') :
    l'.length = l.length ∧ ∀ j, item l' j = if j = i then some a else item l j := by
  unfold setItem at h
  split_ifs at h with hi
  cases h
  refine ⟨List.length_set, fun j => ?_⟩
  unfold item
  split_ifs with hj hji hji
  · rw [hji, List.getElem?_set_self (by omega)]
  · rw [List.getElem?_set_ne (by omega)]
  · exact absurd (hji ▸ hi.1) hj
  · rfl

end Lemmas

end MouseKeeper.Mobile.Maze
