import MouseKeeper.Mobile.Maze
import Mathlib.Data.List.Count

/-!
Every maze is a tree.

The cells that have been visited are the vertices of a tree that is grown by the digging, with
the passages for its edges. When the stack is empty no cell beside a visited one is left, and so
the tree spans the board.
-/

namespace MouseKeeper.Mobile.Maze

open MouseKeeper.DepthFirst
open MazeDirection (Shuffle)

abbrev Cell (size : ℤ) : Type := { p : Point // inside size p }

/-- The point is open to that side. -/
def Open (size : ℤ) (openings : List ℕ) (p : Point) (d : MazeDirection) : Prop :=
  ∃ bits, item openings (offset size p) = some bits ∧ bits &&& d.bit ≠ 0

def Beside {size : ℤ} (p q : Cell size) : Prop := ∃ d, q.1 = p.1.next d

/-- The graph of the cells, with an edge where one may go from the one to the other. -/
def passages (size : ℤ) (openings : List ℕ) : SimpleGraph (Cell size) :=
  .fromRel fun p q => ∃ d, Open size openings p.1 d ∧ q.1 = p.1.next d

def seen (size : ℤ) (visited : List Bool) : Set (Cell size) :=
  {c | item visited (offset size c.1) = some true}

variable {size : ℤ} {openings : List ℕ} {visited : List Bool} {p q : Point} {c : Cell size}
  {d e : MazeDirection} {s s' : Digging}

lemma open_orItem (hp : inside size p) (hl : (openings.length : ℤ) = size * size) :
    ∃ openings', orItem openings (offset size p) d.bit = some openings' ∧
      openings'.length = openings.length ∧ ∀ {q e}, inside size q →
        (Open size openings' q e ↔ Open size openings q e ∨ q = p ∧ e = d) := by
  obtain ⟨bits, hbits⟩ := item_isSome hp hl
  obtain ⟨openings', hset⟩ := setItem_isSome (a := bits ||| d.bit) hp hl
  obtain ⟨hlength, hitem⟩ := item_of_setItem hset
  refine ⟨openings', by simp [orItem, hbits, hset], hlength, fun {q e} hq => ?_⟩
  unfold Open
  rw [hitem]
  split_ifs with hqp
  · cases offset_inj hq hp hqp
    have hor : (bits ||| d.bit) &&& e.bit ≠ 0 ↔ bits &&& e.bit ≠ 0 ∨ e = d := by
      rw [Nat.and_or_distrib_right, ne_eq, Nat.or_eq_zero_iff, not_and_or, eq_comm (a := e)]
      exact or_congr_right bit_and_bit
    simpa [hbits] using hor
  · have hne : q ≠ p := fun he => hqp (by rw [he])
    simp [hne]

/-- What the search among the directions finds. -/
lemma chooseNext_spec (hl : (visited.length : ℤ) = size * size) (directions : List MazeDirection) :
    chooseNext size visited c.1 directions = some none ∧
        (∀ d ∈ directions, ∀ q : Cell size, q.1 = c.1.next d → q ∈ seen size visited) ∨
      ∃ (q : Cell size) (d : MazeDirection), q.1 = c.1.next d ∧ q ∉ seen size visited ∧
        chooseNext size visited c.1 directions = some (some (q.1, d)) := by
  induction directions with
  | nil => exact .inl ⟨rfl, by simp⟩
  | cons d ds ih =>
    by_cases hin : inside size (c.1.next d)
    · have hcond : ¬ ((c.1.next d).x < 0 ∨ (c.1.next d).y < 0 ∨ (c.1.next d).x ≥ size ∨
          (c.1.next d).y ≥ size) := by
        obtain ⟨h1, h2, h3, h4⟩ := hin
        omega
      obtain ⟨v, hv⟩ := item_isSome hin hl
      simp only [chooseNext, if_neg hcond, hv, Option.bind_eq_bind, Option.bind_some]
      cases v with
      | false =>
        refine .inr ⟨⟨_, hin⟩, d, rfl, fun hs => ?_, rfl⟩
        cases hv.symm.trans hs
      | true =>
        refine ih.imp_left fun h => ⟨h.1, ?_⟩
        rintro e (_ | ⟨_, he⟩) q hq
        · exact (congrArg (item visited <| offset size ·) hq).trans hv
        · exact h.2 e he q hq
    · have hcond : (c.1.next d).x < 0 ∨ (c.1.next d).y < 0 ∨ (c.1.next d).x ≥ size ∨
          (c.1.next d).y ≥ size := by
        unfold inside at hin
        omega
      simp only [chooseNext, if_pos hcond]
      refine ih.imp_left fun h => ⟨h.1, ?_⟩
      rintro e (_ | ⟨_, he⟩) q hq
      · exact absurd (hq ▸ q.2) hin
      · exact h.2 e he q hq

/-- The board is dug as far as the cells that have been visited, and the stack leads to where it
may be dug further. -/
structure Dug (root : Cell size) (s : Digging) (stack : List (Cell size)) : Prop where
  openings_length : (s.openings.length : ℤ) = size * size
  visited_length : (s.visited.length : ℤ) = size * size
  stack_eq : s.stack = stack.map Subtype.val
  stack_seen : ∀ c ∈ stack, c ∈ seen size s.visited
  twoSided : ∀ {p : Cell size} {d}, Open size s.openings p.1 d →
    ∃ q : Cell size, q.1 = p.1.next d ∧ Open size s.openings q.1 d.opposite
  grown : Grown (passages size s.openings) root (seen size s.visited)
  settled : Settled Beside (seen size s.visited) stack

lemma seen_setItem {visited' : List Bool} (h : setItem visited (offset size c.1) true = some visited') :
    seen size visited' = insert c (seen size visited) := by
  obtain ⟨-, hitem⟩ := item_of_setItem h
  ext q
  have hq : q ∈ seen size visited' ↔ item visited' (offset size q.1) = some true := Iff.rfl
  rw [hq, hitem, Set.mem_insert_iff]
  split_ifs with he
  · exact iff_of_true rfl (.inl (Subtype.ext (offset_inj q.2 c.2 he)))
  · have hne : q ≠ c := fun h => he (by rw [h])
    exact ⟨.inr, fun h => h.resolve_left hne⟩

/-- One cell fewer has not been visited. -/
lemma count_setItem {visited' : List Bool} (hl : (visited.length : ℤ) = size * size)
    (hc : c ∉ seen size visited) (h : setItem visited (offset size c.1) true = some visited') :
    visited'.count false + 1 = visited.count false := by
  have hnn := offset_nonneg c.2
  have hlt : (offset size c.1).toNat < visited.length := by
    have := offset_lt c.2
    omega
  have hfalse : visited[(offset size c.1).toNat] = false := by
    by_contra ht
    refine hc (show item visited (offset size c.1) = some true from ?_)
    rw [item, if_pos hnn, List.getElem?_eq_getElem hlt]
    simpa using ht
  unfold setItem at h
  split_ifs at h
  cases h
  have hpos : 0 < visited.count false :=
    List.count_pos_iff.mpr (hfalse ▸ List.getElem_mem hlt)
  rw [List.count_set hlt, hfalse]
  simp
  omega

/-- A passage is dug to a new cell. -/
lemma passages_add {openings' : List ℕ} {u v : Cell size} (hv : v.1 = u.1.next d)
    (h : ∀ {p : Cell size} {e}, Open size openings' p.1 e ↔
      Open size openings p.1 e ∨ p = u ∧ e = d ∨ p = v ∧ e = d.opposite) :
    passages size openings' = passages size openings ⊔ .edge u v := by
  have hu : u.1 = v.1.next d.opposite := by rw [hv, next_opposite]
  ext p q
  simp only [passages, SimpleGraph.fromRel_adj, SimpleGraph.sup_adj, SimpleGraph.edge_adj, h]
  constructor
  · rintro ⟨hne, ⟨e, he, hq⟩ | ⟨e, he, hq⟩⟩
    · obtain he | ⟨rfl, rfl⟩ | ⟨rfl, rfl⟩ := he
      · exact .inl ⟨hne, .inl ⟨e, he, hq⟩⟩
      · exact .inr ⟨.inl ⟨rfl, Subtype.ext (hq.trans hv.symm)⟩, hne⟩
      · exact .inr ⟨.inr ⟨rfl, Subtype.ext (hq.trans hu.symm)⟩, hne⟩
    · obtain he | ⟨rfl, rfl⟩ | ⟨rfl, rfl⟩ := he
      · exact .inl ⟨hne, .inr ⟨e, he, hq⟩⟩
      · exact .inr ⟨.inr ⟨Subtype.ext (hq.trans hv.symm), rfl⟩, hne⟩
      · exact .inr ⟨.inl ⟨Subtype.ext (hq.trans hu.symm), rfl⟩, hne⟩
  · rintro (⟨hne, ⟨e, he, hq⟩ | ⟨e, he, hq⟩⟩ | ⟨⟨rfl, rfl⟩ | ⟨rfl, rfl⟩, hne⟩)
    · exact ⟨hne, .inl ⟨e, .inl he, hq⟩⟩
    · exact ⟨hne, .inr ⟨e, .inl he, hq⟩⟩
    · exact ⟨hne, .inl ⟨d, .inr (.inl ⟨rfl, rfl⟩), hv⟩⟩
    · exact ⟨hne, .inl ⟨d.opposite, .inr (.inr ⟨rfl, rfl⟩), hu⟩⟩

/-- How much digging is left: every cell is entered once and left once. -/
def left (s : Digging) : ℕ := 2 * s.visited.count false + s.stack.length

variable {root : Cell size} {stack : List (Cell size)} {directions : Shuffle}

/-- The current cell has no way on, and the digging goes back. -/
lemma Dug.back (h : Dug root s (c :: stack))
    (hall : ∀ q : Cell size, Beside c q → q ∈ seen size s.visited) :
    Dug root { s with stack := stack.map Subtype.val } stack :=
  { h with
    stack_eq := rfl
    stack_seen := fun b hb => h.stack_seen b (List.mem_cons_of_mem _ hb)
    settled := h.settled.pop hall }

/-- A passage leads on to a new cell. -/
lemma Dug.on {q : Cell size} (h : Dug root s (c :: stack)) (hq : q.1 = c.1.next d)
    (hnew : q ∉ seen size s.visited) :
    ∃ openings₁ openings₂ visited', orItem s.openings (offset size c.1) d.bit = some openings₁ ∧
      orItem openings₁ (offset size q.1) d.opposite.bit = some openings₂ ∧
      setItem s.visited (offset size q.1) true = some visited' ∧
      visited'.count false + 1 = s.visited.count false ∧
      Dug root ⟨openings₂, visited', q.1 :: s.stack⟩ (q :: c :: stack) := by
  obtain ⟨o₁, ho₁, hlen₁, hopen₁⟩ := open_orItem (d := d) c.2 h.openings_length
  have hl₁ : (o₁.length : ℤ) = size * size := by rw [hlen₁, h.openings_length]
  obtain ⟨o₂, ho₂, hlen₂, hopen₂⟩ := open_orItem (d := d.opposite) q.2 hl₁
  obtain ⟨visited', hset⟩ := setItem_isSome (a := true) q.2 h.visited_length
  have hopen : ∀ {p : Cell size} {e}, Open size o₂ p.1 e ↔
      Open size s.openings p.1 e ∨ p = c ∧ e = d ∨ p = q ∧ e = d.opposite := fun {p e} => by
    rw [hopen₂ p.2, hopen₁ p.2, or_assoc, Subtype.val_inj, Subtype.val_inj]
  have hc : c ∈ seen size s.visited := h.stack_seen c List.mem_cons_self
  have hseen := seen_setItem hset
  refine ⟨o₁, o₂, visited', ho₁, ho₂, hset, count_setItem h.visited_length hnew hset, ?_⟩
  exact
    { openings_length := by rw [hlen₂, hl₁]
      visited_length := by rw [(item_of_setItem hset).1, h.visited_length]
      stack_eq := by rw [h.stack_eq]; rfl
      stack_seen := fun b hb => hseen ▸ (List.mem_cons.mp hb).imp id (h.stack_seen b)
      twoSided := fun {p e} ho => by
        obtain ho | ⟨rfl, rfl⟩ | ⟨rfl, rfl⟩ := hopen.mp ho
        · obtain ⟨b, hb, hback⟩ := h.twoSided ho
          exact ⟨b, hb, hopen.mpr (.inl hback)⟩
        · exact ⟨q, hq, hopen.mpr (.inr (.inr ⟨rfl, rfl⟩))⟩
        · exact ⟨c, by rw [hq, next_opposite], hopen.mpr (.inr (.inl ⟨rfl, opposite_opposite⟩))⟩
      grown := by
        rw [passages_add hq hopen, hseen]
        exact h.grown.add hc hnew
      settled := by
        rw [hseen]
        exact h.settled.push }

variable (directions) in
/-- **One turn digs on or goes back**, and there is less left to do. -/
lemma turn_dug (h : Dug root s (c :: stack)) :
    ∃ s' stack', turn size directions s = some s' ∧ Dug root s' stack' ∧ left s' + 1 = left s := by
  have hstack : s.stack = c.1 :: stack.map Subtype.val := h.stack_eq
  obtain ⟨hnone, hall⟩ | ⟨q, d, hq, hnew, hsome⟩ :=
    chooseNext_spec (c := c) h.visited_length directions.1
  · refine ⟨_, stack, ?_, h.back fun q ⟨d, hq⟩ => hall d ?_ q hq, ?_⟩
    · simp only [turn, hstack, hnone, Option.bind_eq_bind, Option.bind_some, Option.pure_def]
    · exact directions.2.mem_iff.mpr mem_values
    · simp only [left, hstack, List.length_cons]
      omega
  · obtain ⟨o₁, o₂, visited', ho₁, ho₂, hset, hcount, hdug⟩ := h.on hq hnew
    refine ⟨_, _, ?_, hdug, ?_⟩
    · simp only [turn, hstack, hsome, ho₁, ho₂, hset, Option.bind_eq_bind, Option.bind_some,
        Option.pure_def]
    · simp only [left, List.length_cons]
      omega

variable {shuffles : ℕ → Shuffle}

lemma dig_of_empty {fuel i : ℕ} (h : s.stack = []) : dig size shuffles fuel i s = some s := by
  cases fuel <;> rw [dig, if_pos h]

variable (shuffles) in
/-- **The loop ends with the board dug**, whatever the directions. -/
lemma dig_dug (h : Dug root s stack) (i : ℕ) :
    ∃ s', Dug root s' [] ∧ ∀ fuel ≥ left s, dig size shuffles fuel i s = some s' := by
  induction hn : left s generalizing s stack i with
  | zero =>
    have hstack : s.stack = [] := List.length_eq_zero_iff.mp (by unfold left at hn; omega)
    cases stack with
    | nil => exact ⟨s, h, fun _ _ => dig_of_empty hstack⟩
    | cons c stack => cases hstack.symm.trans h.stack_eq
  | succ n ih =>
    cases stack with
    | nil => exact ⟨s, h, fun _ _ => dig_of_empty h.stack_eq⟩
    | cons c stack =>
      obtain ⟨s₁, stack₁, hturn, hdug, hleft⟩ := turn_dug (shuffles i) h
      obtain ⟨s', hdone, hdig⟩ := ih hdug (i + 1) (by omega)
      refine ⟨s', hdone, fun fuel hfuel => ?_⟩
      obtain ⟨fuel, rfl⟩ := Nat.exists_eq_add_of_lt (Nat.lt_of_lt_of_le n.succ_pos hfuel)
      have hne : s.stack ≠ [] := by
        rw [h.stack_eq]
        exact List.cons_ne_nil _ _
      rw [zero_add, dig, if_neg hne, hturn]
      exact hdig fuel (by omega)

/-! ### The board -/

lemma item_replicate {α : Type} {n : ℕ} {a b : α} {i : ℤ}
    (h : item (List.replicate n a) i = some b) : b = a := by
  unfold item at h
  split_ifs at h
  obtain ⟨hlt, hget⟩ := List.getElem?_eq_some_iff.mp h
  rw [← hget, List.getElem_replicate]

/-- Every cell lies some steps to the right of the corner, and some below it. -/
lemma beside_reach (hroot : root.1 = ⟨0, 0⟩) (c : Cell size) :
    Relation.ReflTransGen Beside root c := by
  induction hn : (c.1.x + c.1.y).toNat generalizing c with
  | zero =>
    obtain ⟨hx, hy, -, -⟩ := c.2
    have hc : c = root := by
      refine Subtype.ext (Point.ext ?_ ?_) <;> rw [hroot] <;> dsimp only <;> omega
    rw [hc]
  | succ n ih =>
    obtain ⟨hx, hy, hx', hy'⟩ := c.2
    by_cases h0 : 0 < c.1.x
    · have hb : inside size ⟨c.1.x - 1, c.1.y⟩ := ⟨by dsimp only; omega, hy, by dsimp only; omega, hy'⟩
      refine (ih ⟨_, hb⟩ (by dsimp only; omega)).tail ⟨.right, ?_⟩
      simp [Point.next, MazeDirection.delta]
    · have hb : inside size ⟨c.1.x, c.1.y - 1⟩ := ⟨hx, by dsimp only; omega, hx', by dsimp only; omega⟩
      refine (ih ⟨_, hb⟩ (by dsimp only; omega)).tail ⟨.down, ?_⟩
      simp [Point.next, MazeDirection.delta]

/-- A cell is a column and a row. -/
def columnRow (n : ℕ) : Cell n ≃ Fin n × Fin n where
  toFun c := (⟨c.1.x.toNat, by have := c.2; unfold inside at this; omega⟩,
    ⟨c.1.y.toNat, by have := c.2; unfold inside at this; omega⟩)
  invFun c := ⟨⟨c.1, c.2⟩, by simp [inside]⟩
  left_inv c := by
    obtain ⟨hx, hy, -, -⟩ := c.2
    exact Subtype.ext (Point.ext (Int.toNat_of_nonneg hx) (Int.toNat_of_nonneg hy))
  right_inv c := by simp

lemma card_cell (h : 0 < size) : Finite (Cell size) ∧ (Nat.card (Cell size) : ℤ) = size * size := by
  lift size to ℕ using h.le
  exact ⟨.of_equiv _ (columnRow size).symm, by simp [Nat.card_congr (columnRow size)]⟩

/-- The board before the first turn. -/
lemma dug_start {visited : List Bool} (hroot : root.1 = ⟨0, 0⟩)
    (hset : setItem (List.replicate (size * size).toNat false) 0 true = some visited) :
    Dug root ⟨List.replicate (size * size).toNat 0, visited, [⟨0, 0⟩]⟩ [root] ∧
      left ⟨List.replicate (size * size).toNat 0, visited, [⟨0, 0⟩]⟩ ≤ 2 * (size * size).toNat := by
  have hcells : ((size * size).toNat : ℤ) = size * size := Int.toNat_of_nonneg (mul_self_nonneg size)
  have hoffset : offset size root.1 = 0 := by simp [hroot, offset]
  rw [← hoffset] at hset
  have hempty : seen size (List.replicate (size * size).toNat false) = ∅ := by
    refine Set.eq_empty_of_forall_notMem fun c hc => ?_
    cases item_replicate hc
  have hseen : seen size visited = {root} := by
    rw [seen_setItem hset, hempty]
    exact insert_empty_eq root
  have hclosed : ∀ {p d}, ¬ Open size (List.replicate (size * size).toNat 0) p d := by
    rintro p d ⟨bits, hbits, hne⟩
    cases item_replicate hbits
    exact hne (Nat.zero_and _)
  have hlength : ((List.replicate (size * size).toNat false).length : ℤ) = size * size := by
    rw [List.length_replicate, hcells]
  have hcount := count_setItem hlength (by simp [hempty]) hset
  rw [List.count_replicate_self] at hcount
  refine ⟨?_, by simp only [left, List.length_singleton]; omega⟩
  exact
    { openings_length := by rw [List.length_replicate, hcells]
      visited_length := by rw [(item_of_setItem hset).1, hlength]
      stack_eq := by rw [List.map_singleton, hroot]
      stack_seen := fun c hc => hseen ▸ List.mem_singleton.mp hc
      twoSided := fun ho => absurd ho hclosed
      grown := by
        have hbot : passages size (List.replicate (size * size).toNat 0) = ⊥ := by
          ext p q
          simp [passages, hclosed]
        rw [hbot, hseen]
        exact grown_bot
      settled := hseen ▸ settled_start }

/-- The cells, with an edge where `canMove` and `move` lead from the one to the other. -/
def MazeBoard.passages (board : MazeBoard) : SimpleGraph (Cell board.size) :=
  .fromRel fun p q => ∃ d, board.canMove p.1 d = some true ∧ board.move p.1 d = some q.1

/-- A maze as it should be. -/
structure Perfect (board : MazeBoard) : Prop where
  answers : ∀ {p d}, inside board.size p → ∃ b, board.canMove p d = some b
  twoSided : ∀ {p d}, inside board.size p → inside board.size (p.next d) →
    (board.canMove p d = some true ↔ board.canMove (p.next d) d.opposite = some true)
  within : ∀ {p d}, inside board.size p → board.canMove p d = some true →
    inside board.size (p.next d)
  tree : board.passages.IsTree
  count : (Nat.card board.passages.edgeSet : ℤ) = board.size * board.size - 1
  connects : ∀ {p}, inside board.size p →
    ∃ directions : List MazeDirection, directions.foldlM board.move ⟨0, 0⟩ = some p
  cheese : ∃ start goal : Cell board.size, start.1 = ⟨0, 0⟩ ∧
    goal.1 = ⟨board.size - 1, board.size - 1⟩ ∧
    ∃! path : board.passages.Walk start goal, path.IsPath

section Board

variable {board : MazeBoard}

lemma canMove_iff : board.canMove p d = some true ↔ Open board.size board.openings p d := by
  simp [MazeBoard.canMove, Open, Option.bind_eq_bind, Option.bind_eq_some_iff]

lemma move_of_canMove (h : board.canMove p d = some true) : board.move p d = some (p.next d) := by
  simp [MazeBoard.move, h]

lemma passages_eq : board.passages = passages board.size board.openings := by
  have hiff : ∀ p q : Cell board.size,
      (∃ d, board.canMove p.1 d = some true ∧ board.move p.1 d = some q.1) ↔
        ∃ d, Open board.size board.openings p.1 d ∧ q.1 = p.1.next d := fun p q =>
    exists_congr fun d => by
      rw [← canMove_iff]
      refine and_congr_right fun h => ?_
      rw [move_of_canMove h, Option.some_inj, eq_comm]
  unfold MazeBoard.passages passages
  simp only [hiff]

variable {root : Cell board.size} {visited : List Bool}

lemma canMove_isSome (hl : (board.openings.length : ℤ) = board.size * board.size)
    (hp : inside board.size p) : ∃ b, board.canMove p d = some b := by
  obtain ⟨bits, hbits⟩ := item_isSome hp hl
  exact ⟨decide (bits &&& d.bit ≠ 0), by simp [MazeBoard.canMove, hbits]⟩

/-- One who may stand in a cell may come to it from the corner. -/
lemma follow_of_reachable (hroot : root.1 = ⟨0, 0⟩)
    (hback : ∀ {p : Cell board.size} {d}, Open board.size board.openings p.1 d →
      ∃ q : Cell board.size, q.1 = p.1.next d ∧ Open board.size board.openings q.1 d.opposite)
    {c : Cell board.size} (h : board.passages.Reachable root c) :
    ∃ directions : List MazeDirection, directions.foldlM board.move ⟨0, 0⟩ = some c.1 := by
  rw [passages_eq, SimpleGraph.reachable_iff_reflTransGen] at h
  induction h with
  | refl => exact ⟨[], congrArg some hroot.symm⟩
  | @tail b c _ hbc ih =>
    obtain ⟨ds, hds⟩ := ih
    -- A passage that was dug from the other side is open from this one.
    obtain ⟨d, hd, hc⟩ : ∃ d, Open board.size board.openings b.1 d ∧ c.1 = b.1.next d := by
      obtain ⟨-, hd | ⟨d, hd, hb⟩⟩ := (SimpleGraph.fromRel_adj _ _ _).mp hbc
      · exact hd
      · obtain ⟨q, hq, ho⟩ := hback hd
        cases Subtype.ext (hq.trans hb.symm)
        exact ⟨_, ho, by rw [hb, next_opposite]⟩
    refine ⟨ds ++ [d], ?_⟩
    rw [List.foldlM_append, hds, hc]
    simp [move_of_canMove (canMove_iff.mpr hd)]

/-- **A board that has been dug to the end is a perfect maze.** -/
lemma perfect_of_dug (hroot : root.1 = ⟨0, 0⟩) (h : Dug root ⟨board.openings, visited, []⟩ []) :
    Perfect board := by
  have hsize : 0 < board.size := lt_of_le_of_lt root.2.1 root.2.2.2.1
  have hback : ∀ {p d}, inside board.size p → board.canMove p d = some true →
      inside board.size (p.next d) ∧ board.canMove (p.next d) d.opposite = some true :=
    fun {p d} hp hd => by
      obtain ⟨q, hq, ho⟩ := h.twoSided (p := ⟨p, hp⟩) (canMove_iff.mp hd)
      rw [← hq]
      exact ⟨q.2, canMove_iff.mpr ho⟩
  have htree : board.passages.IsTree := by
    rw [passages_eq]
    exact h.grown.isTree fun c => h.settled.mem h.grown.root_mem (beside_reach hroot c)
  have hcount : (Nat.card board.passages.edgeSet : ℤ) = board.size * board.size - 1 := by
    obtain ⟨hfinite, hcard⟩ := card_cell hsize
    obtain ⟨-, hedges⟩ := SimpleGraph.isTree_iff_connected_and_card.mp htree
    omega
  exact
    { answers := fun hp => canMove_isSome h.openings_length hp
      twoSided := fun {p d} hp hq => by
        refine ⟨fun hd => (hback hp hd).2, fun hd => ?_⟩
        simpa using (hback hq hd).2
      within := fun hp hd => (hback hp hd).1
      tree := htree
      count := hcount
      connects := fun {p} hp =>
        follow_of_reachable hroot h.twoSided (htree.connected.preconnected root ⟨p, hp⟩)
      cheese := ⟨root, ⟨⟨board.size - 1, board.size - 1⟩,
        ⟨by dsimp only; omega, by dsimp only; omega, by dsimp only; omega, by dsimp only; omega⟩⟩,
        hroot, rfl, htree.existsUnique_path _ _⟩ }

end Board

/-- **Every maze is perfect**, and the digging ends, unless an assertion stops it before. -/
theorem mazes_perfect {assertions : Bool} {size : ℤ} (hsize : 1 ≤ size)
    (hassert : assertions = true → 4 ≤ size) (shuffles : ℕ → Shuffle) :
    ∃ board, (∀ fuel ≥ 2 * (size * size).toNat,
      MazeBoard.generate assertions size shuffles fuel = some board) ∧
      board.size = size ∧ Perfect board := by
  let root : Cell size := ⟨⟨0, 0⟩, le_rfl, le_rfl, hsize, hsize⟩
  have hcells : ((size * size).toNat : ℤ) = size * size := Int.toNat_of_nonneg (mul_self_nonneg size)
  have hlength : ((List.replicate (size * size).toNat false).length : ℤ) = size * size := by
    rw [List.length_replicate, hcells]
  have hoffset : offset size root.1 = 0 := by
    change 0 * size + 0 = 0
    omega
  obtain ⟨visited, hset⟩ := setItem_isSome (a := true) root.2 hlength
  rw [hoffset] at hset
  have hroot : root.1 = ⟨0, 0⟩ := rfl
  obtain ⟨hdug, hleft⟩ := dug_start hroot hset
  obtain ⟨s, hdone, hdig⟩ := dig_dug shuffles hdug 0
  refine ⟨⟨size, s.openings⟩, fun fuel hfuel => ?_, rfl, perfect_of_dug hroot
    { hdone with stack_eq := rfl }⟩
  have hguard : ¬ (assertions = true ∧ ¬ size ≥ 4) := fun h => h.2 (hassert h.1)
  simp only [MazeBoard.generate, if_neg hguard, hset, hdig fuel (hleft.trans hfuel),
    Option.bind_eq_bind, Option.bind_some, Option.pure_def]

/-- A board of four by four cells, where the directions stay in the order of their names. -/
theorem mazes_perfect_small : ∃ board, (∀ fuel ≥ 2 * ((4 : ℤ) * 4).toNat,
    MazeBoard.generate true 4 (fun _ => ⟨MazeDirection.values, .refl _⟩) fuel = some board) ∧
    board.size = 4 ∧ Perfect board :=
  mazes_perfect (by decide) (fun _ => by decide) _

/-- Where assertions are enabled there is no board of one cell. -/
theorem not_mazes_perfect : ¬ ∀ (assertions : Bool) (size : ℤ) (shuffles : ℕ → Shuffle), 1 ≤ size →
    ∃ fuel board, MazeBoard.generate assertions size shuffles fuel = some board ∧ Perfect board := by
  intro h
  obtain ⟨fuel, board, hb, -⟩ := h true 1 (fun _ => ⟨MazeDirection.values, .refl _⟩) le_rfl
  cases hb

end MouseKeeper.Mobile.Maze
