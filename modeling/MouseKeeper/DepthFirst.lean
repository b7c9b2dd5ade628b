import Mathlib.Combinatorics.SimpleGraph.Acyclic

/-!
Depth-first search.

A search keeps the vertices it has seen, and a stack of those that it may still go on from. It
draws an edge to every vertex that it comes upon, and so grows a tree.
-/

namespace MouseKeeper.DepthFirst

variable {V : Type} {G : SimpleGraph V} {N : V → V → Prop} {S : Set V} {stack : List V}
  {root u v : V}

/-- A tree that has been grown from a root, and the vertices in it. -/
structure Grown (G : SimpleGraph V) (root : V) (S : Set V) : Prop where
  acyclic : G.IsAcyclic
  root_mem : root ∈ S
  reaches : ∀ {v}, v ∈ S → G.Reachable root v
  within : ∀ {u v}, G.Adj u v → v ∈ S

lemma grown_bot : Grown ⊥ root {root} where
  acyclic := SimpleGraph.isAcyclic_bot
  root_mem := rfl
  reaches := fun hv => hv ▸ .rfl
  within := fun h => absurd h (by simp)

/-- A vertex outside the tree is reached from no other. -/
lemma Grown.not_reachable (h : Grown G root S) (hne : u ≠ v) (hv : v ∉ S) : ¬ G.Reachable u v := by
  rintro ⟨p⟩
  cases hp : p.reverse with
  | nil => exact hne rfl
  | cons hadj q => exact hv (h.within hadj.symm)

/-- **The tree grows by a leaf.** -/
theorem Grown.add (h : Grown G root S) (hu : u ∈ S) (hv : v ∉ S) :
    Grown (G ⊔ .edge u v) root (insert v S) where
  acyclic := by
    have hne : u ≠ v := fun he => hv (he ▸ hu)
    exact (SimpleGraph.isAcyclic_add_edge_iff_of_not_reachable u v
      (h.not_reachable hne hv)).mpr h.acyclic
  root_mem := .inr h.root_mem
  reaches := by
    have hne : u ≠ v := fun he => hv (he ▸ hu)
    have hmono : ∀ {w}, w ∈ S → (G ⊔ .edge u v).Reachable root w := fun hw =>
      (h.reaches hw).mono le_sup_left
    rintro w (rfl | hw)
    · exact (hmono hu).trans (SimpleGraph.Adj.reachable (.inr (by simp [SimpleGraph.edge_adj, hne])))
    · exact hmono hw
  within := by
    rintro a b (hab | hab)
    · exact .inr (h.within hab)
    · rw [SimpleGraph.edge_adj] at hab
      obtain ⟨⟨-, rfl⟩ | ⟨-, rfl⟩, -⟩ := hab
      · exact .inl rfl
      · exact .inr hu

/-- A tree with all vertices in it. -/
theorem Grown.isTree (h : Grown G root S) (hall : ∀ v, v ∈ S) : G.IsTree where
  connected :=
    { preconnected := fun a b => (h.reaches (hall a)).symm.trans (h.reaches (hall b))
      nonempty := ⟨root⟩ }
  isAcyclic := h.acyclic

/-! ### The stack -/

/-- What has been seen and is not on the stack has no neighbour that has not been seen. -/
def Settled (N : V → V → Prop) (S : Set V) (stack : List V) : Prop :=
  ∀ v ∈ S, v ∉ stack → ∀ w, N v w → w ∈ S

lemma settled_start : Settled N {root} [root] := fun _ hv hs => absurd (List.mem_singleton.mpr hv) hs

lemma Settled.push (h : Settled N S stack) : Settled N (insert u S) (u :: stack) := by
  intro v hv hs w hw
  have hv' : v ∈ S := hv.resolve_left (List.ne_of_not_mem_cons hs)
  exact .inr (h v hv' (List.not_mem_of_not_mem_cons hs) w hw)

lemma Settled.pop (h : Settled N S (u :: stack)) (hu : ∀ w, N u w → w ∈ S) : Settled N S stack := by
  intro v hv hs w hw
  by_cases he : v = u
  · exact hu w (he ▸ hw)
  · exact h v hv (List.not_mem_cons_of_ne_of_not_mem he hs) w hw

/-- **A search that has come to its end has seen all that can be reached.** -/
theorem Settled.mem (h : Settled N S []) (hroot : root ∈ S)
    (hreach : Relation.ReflTransGen N root v) : v ∈ S := by
  induction hreach with
  | refl => exact hroot
  | tail _ hw ih => exact h _ ih List.not_mem_nil _ hw

end MouseKeeper.DepthFirst
