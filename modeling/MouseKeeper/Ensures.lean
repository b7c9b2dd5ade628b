import MouseKeeper.Trace

/-!
Pre- and postconditions of programs that fail.

A program ensures one thing if it succeeds and another if it fails. What it has done before it
fails is there afterwards, until something cleans it up.
-/

namespace MouseKeeper.Trace

variable {σ ℓ ε ε' α β : Type}

/-- A run of `m` from `s` that succeeds ends in `P`, and one that fails ends in `E`. -/
def Ensures (P : α → σ → Prop) (E : ε → σ → Prop) (m : Prog σ ℓ ε α) (s : σ) : Prop :=
  match (m.run s).result with
  | .ok a => P a (m.final s)
  | .error e => E e (m.final s)

/-- Runs a program, and another one when it fails; its failure goes on unless this one fails. -/
def Prog.onError (m : Prog σ ℓ ε α) (cleanUp : Prog σ ℓ ε Unit) : Prog σ ℓ ε α := do
  match ← Prog.attempt m with
  | .ok a => pure a
  | .error e => do
    cleanUp
    Prog.throw e

open Prog

variable {P P' : α → σ → Prop} {E E' : ε → σ → Prop} {m : Prog σ ℓ ε α} {s : σ}

@[simp] lemma ensures_pure {a : α} : Ensures P E (pure a : Prog σ ℓ ε α) s ↔ P a s := Iff.rfl

@[simp] lemma ensures_throw {e : ε} : Ensures P E (throw e : Prog σ ℓ ε α) s ↔ E e s := Iff.rfl

lemma ensures_check {f : σ → Except ε α} : Ensures P E (check f : Prog σ ℓ ε α) s ↔
    match f s with
    | .ok a => P a s
    | .error e => E e s := Iff.rfl

lemma ensures_step {f : σ → Except ε (α × ℓ × σ)} {a : α} {l : ℓ} {s' : σ}
    (hf : f s = .ok (a, l, s')) (h : P a s') : Ensures P E (step f) s := by
  unfold Ensures Prog.final
  rw [run_step_ok hf]
  exact h

lemma Ensures.mono (h : Ensures P E m s) (hP : ∀ a s', P a s' → P' a s')
    (hE : ∀ e s', E e s' → E' e s') : Ensures P' E' m s := by
  unfold Ensures at h ⊢
  split at h
  · exact hP _ _ h
  · exact hE _ _ h

lemma ensures_bind {Q : β → σ → Prop} {f : α → Prog σ ℓ ε β}
    (h : Ensures (fun a s' => Ensures Q E (f a) s') E m s) : Ensures Q E (m >>= f) s := by
  unfold Ensures at h
  split at h
  · next a ha =>
    have hm : Ends m s a (m.final s) := ⟨ha, rfl⟩
    unfold Ensures Prog.final
    rw [run_bind_ok hm, after_append]
    exact h
  · next e he =>
    unfold Ensures Prog.final
    rw [run_bind_error he]
    exact h

lemma ensures_attempt {P : Except ε α → σ → Prop} {E : ε' → σ → Prop} :
    Ensures P E (attempt m : Prog σ ℓ ε' (Except ε α)) s ↔
      Ensures (fun a => P (.ok a)) (fun e => P (.error e)) m s := by
  change P (m.run s).result (m.final s) ↔ _
  unfold Ensures
  cases (m.run s).result with
  | ok a => rfl
  | error e => rfl

lemma ensures_onError {cleanUp : Prog σ ℓ ε Unit}
    (h : Ensures P (fun e s' => Ensures (fun _ => E e) E cleanUp s') m s) :
    Ensures P E (onError m cleanUp) s := by
  refine ensures_bind (ensures_attempt.mpr (h.mono (fun a s' ha => ha) fun e s' he => ?_))
  exact ensures_bind (he.mono (fun _ s'' hs => hs) fun _ _ he => he)

/-- What is kept by each round of a loop is kept by the loop. -/
lemma ensures_loop {f : ℕ → α → β → Prog σ ℓ ε β} {I : List α → β → σ → Prop} {as : List α} {i : ℕ}
    {b : β} (hs : I as b s)
    (h : ∀ i a as b s, I (a :: as) b s → Ensures (I as) E (f i a b) s) :
    Ensures (I []) E (loop f as i b) s := by
  induction as generalizing i b s with
  | nil => exact hs
  | cons a as ih => exact ensures_bind ((h i a as b s hs).mono (fun _ _ => ih) fun _ _ he => he)

end MouseKeeper.Trace
