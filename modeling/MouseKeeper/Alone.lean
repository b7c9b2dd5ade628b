import MouseKeeper.ReadCommitted

/-!
Transactions that run with no other open, as functions of the store.
-/

namespace MouseKeeper.ReadCommitted

variable {D L E R : Type}

namespace Txn

/-- The answer of a transaction, and the store as it has left it for itself. -/
def eval : Txn D L E R → D → Except E R × D
  | .answer r, d => (r, d)
  | .stmt _ change next, d => (next d).eval (change d d)

/-- The store after the transaction: a refused one leaves no trace. -/
def served (t : Txn D L E R) (d : D) : D :=
  match t.eval d with
  | (.ok _, d') => d'
  | (.error _, _) => d

/-- What is committed is what the transaction has left for itself. -/
lemma alone_eq (t : Txn D L E R) (f : D → D) (d : D) :
    t.alone f d = match t.eval (f d) with
      | (.ok _, d') => d'
      | (.error _, _) => d := by
  induction t generalizing f with
  | answer r =>
    cases r with
    | error e => rfl
    | ok r => rfl
  | stmt locks change next ih =>
    rw [alone, eval, ih]

/-- What a transaction keeps true for itself it keeps true of the store. -/
lemma served_of_eval {I : D → Prop} {t : Txn D L E R} {d : D} (hd : I d) (h : I (t.eval d).2) :
    I (t.served d) := by
  rw [served]
  split
  · next he =>
    rw [he] at h
    exact h
  · exact hd

@[simp] lemma eval_read (next : D → Txn D L E R) (d : D) : (read next).eval d = (next d).eval d :=
  rfl

@[simp] lemma eval_lock (locks : D → List L) (next : D → Txn D L E R) (d : D) :
    (lock locks next).eval d = (next d).eval d := rfl

end Txn

end MouseKeeper.ReadCommitted
