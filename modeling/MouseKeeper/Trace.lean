import Mathlib.Data.List.Infix
import Mathlib.Tactic.Common

/-!
Programs that can be cut off.

A program runs from a state through labelled steps and ends with a value or an error. The
steps are kept with the state each leads to, so that a property can speak of every point
at which the program may stop, and of what it did up to there, not of its end alone.
-/

namespace MouseKeeper.Trace

variable {σ ℓ ε ε' α β : Type}

/-- Where a list of steps leads. -/
def after (s : σ) : List (ℓ × σ) → σ
  | [] => s
  | (_, s') :: l => after s' l

/-- How a run ends, and the steps it took. -/
structure Outcome (σ ℓ ε α : Type) where
  result : Except ε α
  steps : List (ℓ × σ)

structure Prog (σ ℓ ε α : Type) where
  run : σ → Outcome σ ℓ ε α

namespace Prog

protected def pure (a : α) : Prog σ ℓ ε α := ⟨fun _ => ⟨.ok a, []⟩⟩

protected def bind (m : Prog σ ℓ ε α) (f : α → Prog σ ℓ ε β) : Prog σ ℓ ε β :=
  ⟨fun s =>
    match (m.run s).result with
    | .error e => ⟨.error e, (m.run s).steps⟩
    | .ok a =>
      let o := (f a).run (after s (m.run s).steps)
      ⟨o.result, (m.run s).steps ++ o.steps⟩⟩

instance : Monad (Prog σ ℓ ε) where
  pure := Prog.pure
  bind := Prog.bind

def throw (e : ε) : Prog σ ℓ ε α := ⟨fun _ => ⟨.error e, []⟩⟩

/-- Looks at the state and leaves it. -/
def read (f : σ → α) : Prog σ ℓ ε α := ⟨fun s => ⟨.ok (f s), []⟩⟩

/-- Looks at the state and may fail on what it sees. -/
def check (f : σ → Except ε α) : Prog σ ℓ ε α := ⟨fun s => ⟨f s, []⟩⟩

/-- One atomic change, or a failure that changes nothing. -/
def step (f : σ → Except ε (α × ℓ × σ)) : Prog σ ℓ ε α :=
  ⟨fun s =>
    match f s with
    | .error e => ⟨.error e, []⟩
    | .ok (a, l, s') => ⟨.ok a, [(l, s')]⟩⟩

/-- Runs a program and hands its failure on as a value. -/
def attempt (m : Prog σ ℓ ε α) : Prog σ ℓ ε' (Except ε α) :=
  ⟨fun s => ⟨.ok (m.run s).result, (m.run s).steps⟩⟩

def mapErr (g : ε → ε') (m : Prog σ ℓ ε α) : Prog σ ℓ ε' α :=
  ⟨fun s => ⟨(m.run s).result.mapError g, (m.run s).steps⟩⟩

/-- Runs a program on a part of the state, its steps relabelled. -/
def zoom {τ κ : Type} (get : σ → τ) (put : σ → τ → σ) (label : κ → ℓ) (m : Prog τ κ ε α) :
    Prog σ ℓ ε α :=
  ⟨fun s =>
    ⟨(m.run (get s)).result, (m.run (get s)).steps.map fun x => (label x.1, put s x.2)⟩⟩

/-- Runs `f` on each item in turn, counting from `i`; the first failure ends the loop. -/
def loop (f : ℕ → α → β → Prog σ ℓ ε β) : List α → ℕ → β → Prog σ ℓ ε β
  | [], _, b => pure b
  | a :: as, i, b => do
    let b' ← f i a b
    loop f as (i + 1) b'

/-- The state a run ends in. -/
def final (m : Prog σ ℓ ε α) (s : σ) : σ := after s (m.run s).steps

end Prog

open Prog

/-! ### Steps -/

@[simp] lemma after_nil (s : σ) : after s ([] : List (ℓ × σ)) = s := rfl

@[simp] lemma after_cons (s s' : σ) (e : ℓ) (l : List (ℓ × σ)) :
    after s ((e, s') :: l) = after s' l := rfl

@[simp] lemma after_append (s : σ) (l l' : List (ℓ × σ)) :
    after s (l ++ l') = after (after s l) l' := by
  induction l generalizing s with
  | nil => rfl
  | cons x l ih => exact ih x.2

/-- Every step of the list, from the state before it, is an `R`-step. -/
inductive Chain (R : σ → ℓ → σ → Prop) : σ → List (ℓ × σ) → Prop
  | nil {s : σ} : Chain R s []
  | cons {s s' : σ} {e : ℓ} {l : List (ℓ × σ)} (h : R s e s') (hl : Chain R s' l) :
    Chain R s ((e, s') :: l)

variable {R R' : σ → ℓ → σ → Prop} {s s' : σ} {l l' : List (ℓ × σ)}

@[simp] lemma chain_nil : Chain R s [] := .nil

@[simp] lemma chain_cons {e : ℓ} : Chain R s ((e, s') :: l) ↔ R s e s' ∧ Chain R s' l :=
  ⟨fun h => by cases h with | cons h hl => exact ⟨h, hl⟩, fun h => .cons h.1 h.2⟩

lemma chain_append : Chain R s (l ++ l') ↔ Chain R s l ∧ Chain R (after s l) l' := by
  induction l generalizing s with
  | nil => simp
  | cons x l ih =>
    obtain ⟨e, s₁⟩ := x
    simp only [List.cons_append, chain_cons, ih, after_cons, and_assoc]

lemma Chain.prefix (h : Chain R s l) (hp : l' <+: l) : Chain R s l' := by
  obtain ⟨r, rfl⟩ := hp
  exact (chain_append.mp h).1

lemma Chain.mono (h : Chain R s l) (hR : ∀ a e b, R a e b → R' a e b) : Chain R' s l := by
  induction h with
  | nil => exact .nil
  | cons h _ ih => exact .cons (hR _ _ _ h) ih

lemma Chain.and (h : Chain R s l) (h' : Chain R' s l) :
    Chain (fun a e b => R a e b ∧ R' a e b) s l := by
  induction h with
  | nil => exact .nil
  | cons h _ ih => exact .cons ⟨h, (chain_cons.mp h').1⟩ (ih (chain_cons.mp h').2)

/-- A property of the labels. -/
lemma chain_labels {P : ℓ → Prop} : Chain (fun _ e _ => P e) s l ↔ ∀ x ∈ l, P x.1 := by
  induction l generalizing s with
  | nil => simp
  | cons x l ih =>
    obtain ⟨e, s'⟩ := x
    rw [chain_cons, ih, List.forall_mem_cons]

/-- **Invariants.** What every step keeps holds after any number of steps. -/
theorem Chain.keeps {I : σ → Prop} (h : Chain R s l) (hstep : ∀ a e b, I a → R a e b → I b)
    (hs : I s) : I (after s l) := by
  induction h with
  | nil => exact hs
  | cons h _ ih => exact ih (hstep _ _ _ hs h)

/-- Every step is taken in a state of the invariant. -/
lemma Chain.with {I : σ → Prop} (h : Chain R s l) (hstep : ∀ a e b, I a → R a e b → I b)
    (hs : I s) : Chain (fun a e b => I a ∧ R a e b) s l := by
  induction h with
  | nil => exact .nil
  | cons h _ ih => exact .cons ⟨hs, h⟩ (ih (hstep _ _ _ hs h))

/-- What holds at each step, given an invariant of the states before it. -/
theorem Chain.each {I : σ → Prop} {P : ℓ → Prop} (h : Chain R s l)
    (hstep : ∀ a e b, I a → R a e b → I b) (hP : ∀ a e b, I a → R a e b → P e) (hs : I s) :
    ∀ x ∈ l, P x.1 := by
  induction h with
  | nil => simp
  | cons h _ ih =>
    intro y hy
    rcases List.mem_cons.mp hy with rfl | hy
    · exact hP _ _ _ hs h
    · exact ih (hstep _ _ _ hs h) y hy

/-! ### Runs that succeed -/

/-- A run of `m` from `s` succeeds with `a` and leaves the state `s'`. -/
def Ends (m : Prog σ ℓ ε α) (s : σ) (a : α) (s' : σ) : Prop :=
  (m.run s).result = .ok a ∧ s' = m.final s

variable {a : α} {b : β}

lemma run_bind_ok {m : Prog σ ℓ ε α} {f : α → Prog σ ℓ ε β} (h : Ends m s a s') :
    (m >>= f).run s = ⟨((f a).run s').result, (m.run s).steps ++ ((f a).run s').steps⟩ := by
  obtain ⟨h, rfl⟩ := h
  change (Prog.bind m f).run s = _
  simp only [Prog.bind, h, Prog.final]

lemma run_bind_error {m : Prog σ ℓ ε α} {f : α → Prog σ ℓ ε β} {e : ε}
    (h : (m.run s).result = .error e) : (m >>= f).run s = ⟨.error e, (m.run s).steps⟩ := by
  change (Prog.bind m f).run s = _
  simp only [Prog.bind, h]

lemma ends_or_fails (m : Prog σ ℓ ε α) (s : σ) :
    (∃ a s', Ends m s a s') ∨ ∃ e, (m.run s).result = .error e := by
  cases hr : (m.run s).result with
  | error e => exact .inr ⟨e, rfl⟩
  | ok a => exact .inl ⟨a, _, hr, rfl⟩

lemma Ends.unique {m : Prog σ ℓ ε α} {a' : α} {s'' : σ} (h : Ends m s a s')
    (h' : Ends m s a' s'') : a = a' ∧ s' = s'' := by
  obtain ⟨h1, rfl⟩ := h
  obtain ⟨h2, rfl⟩ := h'
  rw [h1] at h2
  exact ⟨Except.ok.inj h2, rfl⟩

@[simp] lemma ends_pure {a' : α} :
    Ends (pure a : Prog σ ℓ ε α) s a' s' ↔ a' = a ∧ s' = s := by
  change Except.ok a = Except.ok a' ∧ _ ↔ _
  rw [Except.ok.injEq, eq_comm]
  rfl

@[simp] lemma ends_throw {e : ε} : ¬ Ends (throw e : Prog σ ℓ ε α) s a s' := by
  rintro ⟨h, -⟩
  cases h

@[simp] lemma ends_read {f : σ → α} :
    Ends (read f : Prog σ ℓ ε α) s a s' ↔ a = f s ∧ s' = s := by
  change Except.ok (f s) = Except.ok a ∧ _ ↔ _
  rw [Except.ok.injEq, eq_comm]
  rfl

@[simp] lemma ends_check {f : σ → Except ε α} :
    Ends (check f : Prog σ ℓ ε α) s a s' ↔ f s = .ok a ∧ s' = s := Iff.rfl

lemma ends_bind {m : Prog σ ℓ ε α} {f : α → Prog σ ℓ ε β} :
    Ends (m >>= f) s b s' ↔ ∃ a s₁, Ends m s a s₁ ∧ Ends (f a) s₁ b s' := by
  constructor
  · intro h
    rcases ends_or_fails m s with ⟨a, s₁, h₁⟩ | ⟨e, he⟩
    · refine ⟨a, s₁, h₁, ?_⟩
      unfold Ends Prog.final at h ⊢
      rw [run_bind_ok h₁] at h
      rw [after_append] at h
      obtain ⟨-, rfl⟩ := h₁
      exact h
    · rw [Ends, run_bind_error he] at h
      cases h.1
  · rintro ⟨a, s₁, h₁, h₂⟩
    unfold Ends Prog.final at h₂ ⊢
    rw [run_bind_ok h₁, after_append]
    obtain ⟨-, rfl⟩ := h₁
    exact h₂

lemma run_step_ok {f : σ → Except ε (α × ℓ × σ)} {e : ℓ} (h : f s = .ok (a, e, s')) :
    (step f).run s = ⟨.ok a, [(e, s')]⟩ := by
  simp only [step, h]

lemma run_step_error {f : σ → Except ε (α × ℓ × σ)} {e : ε} (h : f s = .error e) :
    (step f).run s = ⟨.error e, []⟩ := by
  simp only [step, h]

lemma ends_step {f : σ → Except ε (α × ℓ × σ)} :
    Ends (step f) s a s' ↔ ∃ e, f s = .ok (a, e, s') := by
  unfold Ends Prog.final
  cases hf : f s with
  | error e => simp [run_step_error hf]
  | ok x =>
    obtain ⟨a', e, s₁⟩ := x
    simp [run_step_ok hf, eq_comm]

@[simp] lemma ends_mapErr {g : ε → ε'} {m : Prog σ ℓ ε α} :
    Ends (mapErr g m) s a s' ↔ Ends m s a s' := by
  change (m.run s).result.mapError g = _ ∧ _ ↔ (m.run s).result = _ ∧ _
  refine and_congr ?_ Iff.rfl
  cases (m.run s).result <;> simp [Except.mapError]

lemma ends_attempt {m : Prog σ ℓ ε α} {r : Except ε α} :
    Ends (attempt m : Prog σ ℓ ε' (Except ε α)) s r s' ↔
      r = (m.run s).result ∧ s' = m.final s := by
  change Except.ok (m.run s).result = Except.ok r ∧ _ ↔ _
  rw [Except.ok.injEq, eq_comm]
  rfl

lemma run_attempt_bind {m : Prog σ ℓ ε α} {f : Except ε α → Prog σ ℓ ε' β} {r : Except ε α}
    (h : m.run s = ⟨r, l⟩) : (attempt m >>= f).run s =
      ⟨((f r).run (after s l)).result, l ++ ((f r).run (after s l)).steps⟩ := by
  have hm : Ends (attempt m : Prog σ ℓ ε' (Except ε α)) s r (after s l) := by
    rw [ends_attempt, Prog.final, h]
    exact ⟨rfl, rfl⟩
  rw [run_bind_ok hm]
  change Outcome.mk _ ((m.run s).steps ++ _) = _
  rw [h]

section Zoom

variable {τ κ : Type} {get : σ → τ} {put : σ → τ → σ} {label : κ → ℓ}

lemma after_zoom (put : σ → τ → σ) (label : κ → ℓ) (s : σ) (d : τ) (l : List (κ × τ)) :
    after (put s d) (l.map fun x => (label x.1, put s x.2)) = put s (after d l) := by
  induction l generalizing d with
  | nil => rfl
  | cons x l ih => exact ih x.2

lemma final_zoom (hid : ∀ s, put s (get s) = s) (m : Prog τ κ ε α) (s : σ) :
    (zoom get put label m).final s = put s (m.final (get s)) := by
  have h := after_zoom put label s (get s) (m.run (get s)).steps
  rwa [hid] at h

lemma ends_zoom (hid : ∀ s, put s (get s) = s) {m : Prog τ κ ε α} :
    Ends (zoom get put label m) s a s' ↔ ∃ d, Ends m (get s) a d ∧ s' = put s d := by
  unfold Ends
  rw [final_zoom hid]
  constructor
  · rintro ⟨h, rfl⟩
    exact ⟨_, ⟨h, rfl⟩, rfl⟩
  · rintro ⟨d, ⟨h, rfl⟩, rfl⟩
    exact ⟨h, rfl⟩

end Zoom

/-! ### Programs made of steps of one relation -/

/-- Every step a run of `m` from `s` takes is an `R`-step. -/
def Follows (R : σ → ℓ → σ → Prop) (m : Prog σ ℓ ε α) (s : σ) : Prop := Chain R s (m.run s).steps

@[simp] lemma follows_pure (a : α) : Follows R (pure a : Prog σ ℓ ε α) s := .nil

@[simp] lemma follows_throw (e : ε) : Follows R (throw e : Prog σ ℓ ε α) s := .nil

@[simp] lemma follows_read (f : σ → α) : Follows R (read f : Prog σ ℓ ε α) s := .nil

@[simp] lemma follows_check (f : σ → Except ε α) : Follows R (check f : Prog σ ℓ ε α) s := .nil

lemma follows_bind {m : Prog σ ℓ ε α} {f : α → Prog σ ℓ ε β} (hm : Follows R m s)
    (hf : ∀ a s', Ends m s a s' → Follows R (f a) s') : Follows R (m >>= f) s := by
  unfold Follows
  rcases ends_or_fails m s with ⟨a, s', h⟩ | ⟨e, he⟩
  · rw [run_bind_ok h]
    refine chain_append.mpr ⟨hm, ?_⟩
    obtain ⟨-, rfl⟩ := id h
    exact hf a _ h
  · rw [run_bind_error he]
    exact hm

lemma follows_read_bind {g : σ → α} {f : α → Prog σ ℓ ε β} (h : Follows R (f (g s)) s) :
    Follows R (read g >>= f) s := by
  refine follows_bind (follows_read g) fun a s' hs => ?_
  obtain ⟨rfl, rfl⟩ := ends_read.mp hs
  exact h

lemma follows_check_bind {g : σ → Except ε α} {f : α → Prog σ ℓ ε β}
    (h : ∀ a, g s = .ok a → Follows R (f a) s) : Follows R (check g >>= f) s := by
  refine follows_bind (follows_check g) fun a s' hs => ?_
  obtain ⟨ha, rfl⟩ := ends_check.mp hs
  exact h a ha

lemma follows_ite {c : Prop} [Decidable c] {m m' : Prog σ ℓ ε α} (h : c → Follows R m s)
    (h' : ¬ c → Follows R m' s) : Follows R (if c then m else m') s := by
  by_cases hc : c
  · rw [if_pos hc]
    exact h hc
  · rw [if_neg hc]
    exact h' hc

lemma follows_step {f : σ → Except ε (α × ℓ × σ)}
    (h : ∀ a e s', f s = .ok (a, e, s') → R s e s') : Follows R (step f) s := by
  unfold Follows
  cases hf : f s with
  | error e => simp [run_step_error hf]
  | ok x =>
    obtain ⟨a, e, s'⟩ := x
    simpa [run_step_ok hf] using h a e s' hf

lemma follows_mapErr {g : ε → ε'} {m : Prog σ ℓ ε α} (h : Follows R m s) :
    Follows R (mapErr g m) s := h

lemma follows_attempt_bind {m : Prog σ ℓ ε α} {f : Except ε α → Prog σ ℓ ε' β} (hm : Follows R m s)
    (hf : Follows R (f (m.run s).result) (m.final s)) : Follows R (attempt m >>= f) s := by
  refine follows_bind (m := attempt m) hm fun a s' hs => ?_
  obtain ⟨rfl, rfl⟩ := ends_attempt.mp hs
  exact hf

lemma follows_zoom {τ κ : Type} {get : σ → τ} {put : σ → τ → σ} {label : κ → ℓ}
    {Q : τ → κ → τ → Prop} {m : Prog τ κ ε α} (h : Follows Q m (get s))
    (hid : ∀ s, put s (get s) = s)
    (hQ : ∀ d c d', Q d c d' → R (put s d) (label c) (put s d')) :
    Follows R (zoom get put label m) s := by
  suffices ∀ d l, Chain Q d l → Chain R (put s d) (l.map fun x => (label x.1, put s x.2)) by
    have := this _ _ h
    rwa [hid] at this
  intro d l hl
  induction hl with
  | nil => exact .nil
  | cons h _ ih => exact .cons (hQ _ _ _ h) ih

lemma Follows.mono {m : Prog σ ℓ ε α} (h : Follows R m s) (hR : ∀ a e b, R a e b → R' a e b) :
    Follows R' m s := Chain.mono h hR

/-- What every step keeps holds when the run has succeeded. -/
lemma Follows.ends {m : Prog σ ℓ ε α} {I : σ → Prop} (h : Follows R m s) (he : Ends m s a s')
    (hstep : ∀ a e b, I a → R a e b → I b) (hs : I s) : I s' := by
  obtain ⟨-, rfl⟩ := he
  exact h.keeps hstep hs

/-! ### What a run emits -/

/-- Every step a run of `m` from `s` takes has a label in `P`. -/
def Emits (P : ℓ → Prop) (m : Prog σ ℓ ε α) (s : σ) : Prop := ∀ x ∈ (m.run s).steps, P x.1

variable {P : ℓ → Prop}

/-- What holds at each step of a program, given an invariant. -/
lemma Follows.emits {m : Prog σ ℓ ε α} {I : σ → Prop} (h : Follows R m s)
    (hstep : ∀ a e b, I a → R a e b → I b) (hP : ∀ a e b, I a → R a e b → P e) (hs : I s) :
    Emits P m s := Chain.each h hstep hP hs

@[simp] lemma emits_pure (a : α) : Emits P (pure a : Prog σ ℓ ε α) s := List.forall_mem_nil _

@[simp] lemma emits_throw (e : ε) : Emits P (throw e : Prog σ ℓ ε α) s := List.forall_mem_nil _

@[simp] lemma emits_read (f : σ → α) : Emits P (read f : Prog σ ℓ ε α) s := List.forall_mem_nil _

@[simp] lemma emits_check (f : σ → Except ε α) : Emits P (check f : Prog σ ℓ ε α) s :=
  List.forall_mem_nil _

lemma emits_bind {m : Prog σ ℓ ε α} {f : α → Prog σ ℓ ε β} :
    Emits P (m >>= f) s ↔ Emits P m s ∧ ∀ a s', Ends m s a s' → Emits P (f a) s' := by
  unfold Emits
  rcases ends_or_fails m s with ⟨a, s', h⟩ | ⟨e, he⟩
  · rw [run_bind_ok h]
    simp only [List.mem_append, or_imp, forall_and]
    refine and_congr_right fun _ => ⟨fun hx a' s'' h' => ?_, fun hx => hx a s' h⟩
    obtain ⟨rfl, rfl⟩ := h.unique h'
    exact hx
  · rw [run_bind_error he]
    refine ⟨fun hx => ⟨hx, fun a s' h => ?_⟩, fun hx => hx.1⟩
    rw [h.1] at he
    cases he

@[simp] lemma emits_read_bind {g : σ → α} {f : α → Prog σ ℓ ε β} :
    Emits P (read g >>= f) s ↔ Emits P (f (g s)) s := by
  simp [emits_bind]

@[simp] lemma emits_check_bind {g : σ → Except ε α} {f : α → Prog σ ℓ ε β} :
    Emits P (check g >>= f) s ↔ ∀ a, g s = .ok a → Emits P (f a) s := by
  simp [emits_bind]

@[simp] lemma emits_mapErr {g : ε → ε'} {m : Prog σ ℓ ε α} :
    Emits P (mapErr g m) s ↔ Emits P m s := Iff.rfl

@[simp] lemma emits_attempt {m : Prog σ ℓ ε α} :
    Emits P (attempt m : Prog σ ℓ ε' (Except ε α)) s ↔ Emits P m s := Iff.rfl

lemma emits_attempt_bind {m : Prog σ ℓ ε α} {f : Except ε α → Prog σ ℓ ε' β} :
    Emits P (attempt m >>= f) s ↔ Emits P m s ∧ Emits P (f (m.run s).result) (m.final s) := by
  simp [emits_bind, ends_attempt]

lemma emits_step {f : σ → Except ε (α × ℓ × σ)} :
    Emits P (step f) s ↔ ∀ a e s', f s = .ok (a, e, s') → P e := by
  unfold Emits
  cases hf : f s with
  | error e => simp [run_step_error hf]
  | ok x => simp [run_step_ok hf, Prod.ext_iff]

lemma emits_zoom {τ κ : Type} {get : σ → τ} {put : σ → τ → σ} {label : κ → ℓ}
    {m : Prog τ κ ε α} :
    Emits P (zoom get put label m) s ↔ Emits (fun c => P (label c)) m (get s) := by
  unfold Emits zoom
  exact List.forall_mem_map

/-! ### Loops -/

/-- `P` holds of each item the loop reaches, in the state before it. -/
def AtEach (f : ℕ → α → β → Prog σ ℓ ε β) (P : ℕ → α → σ → Prop) : List α → ℕ → β → σ → Prop
  | [], _, _, _ => True
  | a :: as, i, b, s =>
    P i a s ∧ ∀ b' s', Ends (f i a b) s b' s' → AtEach f P as (i + 1) b' s'

variable {f : ℕ → α → β → Prog σ ℓ ε β} {Q Q' : ℕ → α → σ → Prop} {as : List α} {i : ℕ}

lemma AtEach.mono (h : AtEach f Q as i b s) (hQ : ∀ i a s, a ∈ as → Q i a s → Q' i a s) :
    AtEach f Q' as i b s := by
  induction as generalizing i b s with
  | nil => trivial
  | cons a as ih =>
    exact ⟨hQ _ _ _ (by simp) h.1, fun b' s' hs =>
      ih (h.2 b' s' hs) fun i a s ha => hQ i a s (List.mem_cons_of_mem _ ha)⟩

lemma AtEach.of_forall (h : ∀ i a s, Q i a s) : AtEach f Q as i b s := by
  induction as generalizing i b s with
  | nil => trivial
  | cons a as ih => exact ⟨h i a s, fun _ _ _ => ih⟩

lemma AtEach.of_inv {I : σ → Prop} (hs : I s) (h : ∀ i a s, a ∈ as → I s → Q i a s)
    (hkeep : ∀ i a b s b' s', a ∈ as → I s → Ends (f i a b) s b' s' → I s') :
    AtEach f Q as i b s := by
  induction as generalizing i b s with
  | nil => trivial
  | cons a as ih =>
    refine ⟨h i a s (by simp) hs, fun b' s' he => ?_⟩
    exact ih (hkeep i a b s b' s' (by simp) hs he)
      (fun i a s ha => h i a s (List.mem_cons_of_mem _ ha))
      fun i a b s b' s' ha => hkeep i a b s b' s' (List.mem_cons_of_mem _ ha)

/-- A property of the steps holds along the loop exactly if it holds along each item reached. -/
lemma emits_loop {I : σ → Prop} (hs : I s)
    (hQ : ∀ i a b s, a ∈ as → I s → (Emits P (f i a b) s ↔ Q i a s))
    (hkeep : ∀ i a b s b' s', a ∈ as → I s → Ends (f i a b) s b' s' → I s') :
    Emits P (loop f as i b) s ↔ AtEach f Q as i b s := by
  induction as generalizing i b s with
  | nil => simp [loop, AtEach]
  | cons a as ih =>
    simp only [loop, AtEach, emits_bind]
    refine and_congr (hQ i a b s (by simp) hs) (forall₃_congr fun b' s' he => ?_)
    exact ih (hkeep i a b s b' s' (by simp) hs he)
      (fun i a b s ha => hQ i a b s (List.mem_cons_of_mem _ ha))
      fun i a b s b' s' ha => hkeep i a b s b' s' (List.mem_cons_of_mem _ ha)

/-- A loop follows `R` if each item does, as long as an invariant of `R` and of the items
left lasts. -/
lemma follows_loop {I : σ → Prop} (hs : I s) (h : AtEach f Q as i b s)
    (hf : ∀ i a b s, a ∈ as → I s → Q i a s → Follows R (f i a b) s)
    (hstep : ∀ a e b, I a → R a e b → I b) : Follows R (loop f as i b) s := by
  induction as generalizing i b s with
  | nil => exact .nil
  | cons a as ih =>
    have ha := hf i a b s (by simp) hs h.1
    refine follows_bind ha fun b' s' he => ?_
    exact ih (ha.ends he hstep hs) (h.2 b' s' he)
      fun i a b s hm => hf i a b s (List.mem_cons_of_mem _ hm)

/-! ### How a run fails -/

/-- If a run of `m` from `s` fails, it fails with an error in `C`. -/
def Fails (C : ε → Prop) (m : Prog σ ℓ ε α) (s : σ) : Prop := ∀ e, (m.run s).result = .error e → C e

variable {C : ε → Prop}

lemma Fails.mono {C' : ε → Prop} {m : Prog σ ℓ ε α} (h : Fails C m s) (hC : ∀ e, C e → C' e) :
    Fails C' m s := fun e he => hC e (h e he)

@[simp] lemma fails_pure (a : α) : Fails C (pure a : Prog σ ℓ ε α) s := nofun

@[simp] lemma fails_throw {e : ε} : Fails C (throw e : Prog σ ℓ ε α) s ↔ C e := by
  constructor
  · exact fun h => h e rfl
  · intro h e' he'
    cases he'
    exact h

@[simp] lemma fails_read (f : σ → α) : Fails C (read f : Prog σ ℓ ε α) s := nofun

@[simp] lemma fails_check {f : σ → Except ε α} :
    Fails C (check f : Prog σ ℓ ε α) s ↔ ∀ e, f s = .error e → C e := Iff.rfl

lemma fails_attempt {m : Prog σ ℓ ε' α} :
    Fails C (attempt m : Prog σ ℓ ε (Except ε' α)) s := nofun

lemma fails_step {f : σ → Except ε (α × ℓ × σ)} (h : ∀ e, f s = .error e → C e) :
    Fails C (step f) s := by
  intro e he
  cases hf : f s with
  | error e' =>
    rw [run_step_error hf] at he
    cases he
    exact h e hf
  | ok x =>
    obtain ⟨a, l, s'⟩ := x
    rw [run_step_ok hf] at he
    cases he

/-- Whatever the program fails with, the error that it is turned into counts. -/
lemma fails_mapErr {g : ε' → ε} {m : Prog σ ℓ ε' α} (h : ∀ e, C (g e)) :
    Fails C (mapErr g m) s := by
  intro e he
  change (m.run s).result.mapError g = .error e at he
  cases hr : (m.run s).result with
  | error e' =>
    rw [hr] at he
    cases he
    exact h e'
  | ok a =>
    rw [hr] at he
    cases he

lemma fails_mapErr_iff {g : ε' → ε} {m : Prog σ ℓ ε' α} :
    Fails C (mapErr g m) s ↔ Fails (fun e => C (g e)) m s := by
  unfold Fails
  change (∀ e, (m.run s).result.mapError g = .error e → C e) ↔ _
  cases (m.run s).result <;> simp [Except.mapError]

lemma fails_bind {m : Prog σ ℓ ε α} {f : α → Prog σ ℓ ε β} :
    Fails C (m >>= f) s ↔ Fails C m s ∧ ∀ a s', Ends m s a s' → Fails C (f a) s' := by
  unfold Fails
  rcases ends_or_fails m s with ⟨a, s', h⟩ | ⟨e, he⟩
  · rw [run_bind_ok h]
    constructor
    · refine fun hf => ⟨fun e he => ?_, fun a' s'' h' => ?_⟩
      · rw [h.1] at he
        cases he
      · obtain ⟨rfl, rfl⟩ := h.unique h'
        exact hf
    · exact fun hf => hf.2 a s' h
  · rw [run_bind_error he]
    constructor
    · refine fun hf => ⟨fun e' he' => ?_, fun a s' h => ?_⟩
      · rw [he] at he'
        cases he'
        exact hf e rfl
      · rw [h.1] at he
        cases he
    · intro hf e' he'
      cases he'
      exact hf.1 e he

@[simp] lemma fails_read_bind {g : σ → α} {f : α → Prog σ ℓ ε β} :
    Fails C (read g >>= f) s ↔ Fails C (f (g s)) s := by
  simp [fails_bind]

lemma fails_check_bind {g : σ → Except ε α} {f : α → Prog σ ℓ ε β} :
    Fails C (check g >>= f) s ↔
      (∀ e, g s = .error e → C e) ∧ ∀ a, g s = .ok a → Fails C (f a) s := by
  simp [fails_bind]

/-- A loop fails in this way exactly if each item that it reaches does. -/
lemma fails_loop {I : σ → Prop} (hs : I s)
    (hQ : ∀ i a b s, a ∈ as → I s → (Fails C (f i a b) s ↔ Q i a s))
    (hkeep : ∀ i a b s b' s', a ∈ as → I s → Ends (f i a b) s b' s' → I s') :
    Fails C (loop f as i b) s ↔ AtEach f Q as i b s := by
  induction as generalizing i b s with
  | nil => simp [loop, AtEach]
  | cons a as ih =>
    simp only [loop, AtEach, fails_bind]
    refine and_congr (hQ i a b s (by simp) hs) (forall₃_congr fun b' s' he => ?_)
    exact ih (hkeep i a b s b' s' (by simp) hs he)
      (fun i a b s ha => hQ i a b s (List.mem_cons_of_mem _ ha))
      fun i a b s b' s' ha => hkeep i a b s b' s' (List.mem_cons_of_mem _ ha)

end MouseKeeper.Trace
