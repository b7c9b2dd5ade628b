import MouseKeeper.ReadCommitted

/-!
Runs of transactions under read committed: conditions that look at all open calls, and runs
that are computed from a schedule.
-/

namespace MouseKeeper.ReadCommitted

variable {Q D L E R : Type} {body : Q → Txn D L E R}

/-- Any number of steps that are taken where the condition holds. -/
def RunsWhere (body : Q → Txn D L E R) (ok : State Q D L E R → Event Q E R → Prop) :
    State Q D L E R → State Q D L E R → Prop :=
  Relation.ReflTransGen fun s s' => ∃ e, Step body s e s' ∧ ok s e

/-- **An invariant of whole states** holds to the end of a run. -/
theorem RunsWhere.invariant {ok : State Q D L E R → Event Q E R → Prop} {I : State Q D L E R → Prop}
    {s s' : State Q D L E R} (hstep : ∀ {s e s'}, I s → ok s e → Step body s e s' → I s')
    (h : I s) (hr : RunsWhere body ok s s') : I s' := by
  induction hr with
  | refl => exact h
  | tail _ hs ih =>
    obtain ⟨e, hs, hok⟩ := hs
    exact hstep ih hok hs

/-! ### Schedules -/

/-- Whose turn it is, and what for. -/
inductive Move (Q : Type) where
  | begin (i : ℕ) (q : Q)
  | stmt (i : ℕ)
  | commit (i : ℕ)
  | refuse (i : ℕ)

variable [DecidableEq L]

/-- No call below `n` but `i` holds the lock. -/
def State.freeBelow (n : ℕ) (s : State Q D L E R) (i : ℕ) (l : L) : Bool :=
  (List.range n).all fun j => j = i || (s.calls j).all fun c => l ∉ c.held

/-- The step that the move asks for, among the calls below `n`. -/
def State.move (body : Q → Txn D L E R) (n : ℕ) (s : State Q D L E R) :
    Move Q → Option (State Q D L E R)
  | .begin i q =>
    if i < n ∧ (s.calls i).isNone then
      some ⟨s.db, Function.update s.calls i (some (.start body q))⟩
    else none
  | .stmt i =>
    match s.calls i with
    | some c =>
      match c.rest with
      | .stmt locks change next =>
        if (locks (c.view s.db)).all (s.freeBelow n i) then
          some ⟨s.db, Function.update s.calls i (some (c.advance s.db locks change next))⟩
        else none
      | .answer _ => none
    | none => none
  | .commit i =>
    match s.calls i with
    | some c =>
      match c.rest with
      | .answer (.ok _) => some ⟨c.view s.db, Function.update s.calls i none⟩
      | _ => none
    | none => none
  | .refuse i =>
    match s.calls i with
    | some c =>
      match c.rest with
      | .answer (.error _) => some ⟨s.db, Function.update s.calls i none⟩
      | _ => none
    | none => none

def State.schedule (body : Q → Txn D L E R) (n : ℕ) (s : State Q D L E R) :
    List (Move Q) → Option (State Q D L E R)
  | [] => some s
  | m :: ms => (s.move body n m).bind fun s' => s'.schedule body n ms

/-- Only calls below `n` are open. -/
def State.Below (n : ℕ) (s : State Q D L E R) : Prop := ∀ j, n ≤ j → s.calls j = none

variable {n : ℕ} {s s' : State Q D L E R} {m : Move Q}

omit [DecidableEq L] in
lemma State.Below.update (h : s.Below n) {i : ℕ} {c : Option (Call Q D L E R)} {d : D}
    (hc : i < n ∨ c = none) : State.Below n ⟨d, Function.update s.calls i c⟩ := by
  intro j hj
  by_cases hij : j = i
  · subst hij
    rcases hc with hlt | rfl
    · omega
    · exact Function.update_self ..
  · exact (Function.update_of_ne hij ..).trans (h j hj)

omit [DecidableEq L] in
lemma State.Below.lt (h : s.Below n) {i : ℕ} {c : Call Q D L E R} (hc : s.calls i = some c) :
    i < n := by
  by_contra hn
  rw [h i (Nat.le_of_not_lt hn)] at hc
  cases hc

lemma State.Below.free (h : s.Below n) {i : ℕ} {l : L} (hf : s.freeBelow n i l = true) :
    s.Free i l := by
  intro j c hj hc hl
  have := List.all_eq_true.mp hf j (List.mem_range.mpr (h.lt hc))
  simp [hj, hc, hl] at this

lemma move_step (h : s.Below n) (hm : s.move body n m = some s') :
    (∃ e, Step body s e s') ∧ s'.Below n := by
  cases m with
  | begin i q =>
    simp only [State.move] at hm
    split_ifs at hm with hi
    cases hm
    exact ⟨⟨_, .begin i q (Option.isNone_iff_eq_none.mp hi.2)⟩, h.update (.inl hi.1)⟩
  | stmt i =>
    simp only [State.move] at hm
    split at hm
    · next c hc =>
      split at hm
      · next locks change next hr =>
        split_ifs at hm with hf
        cases hm
        exact ⟨⟨_, .stmt hc hr fun l hl => h.free (List.all_eq_true.mp hf l hl)⟩,
          h.update (.inl (h.lt hc))⟩
      · cases hm
    · cases hm
  | commit i =>
    simp only [State.move] at hm
    split at hm
    · next c hc =>
      split at hm
      · next r hr =>
        cases hm
        exact ⟨⟨_, .commit hc hr⟩, h.update (.inr rfl)⟩
      · cases hm
    · cases hm
  | refuse i =>
    simp only [State.move] at hm
    split at hm
    · next c hc =>
      split at hm
      · next r hr =>
        cases hm
        exact ⟨⟨_, .refuse hc hr⟩, h.update (.inr rfl)⟩
      · cases hm
    · cases hm

lemma schedule_below {ms : List (Move Q)} (h : s.Below n)
    (hm : s.schedule body n ms = some s') : s'.Below n := by
  induction ms generalizing s with
  | nil =>
    cases hm
    exact h
  | cons m ms ih =>
    obtain ⟨t, ht, hm⟩ := Option.bind_eq_some_iff.mp hm
    exact ih (move_step h ht).2 hm

/-- **A schedule that can be followed is a run**, where the condition holds with so few calls. -/
theorem runsWhere_schedule {ok : State Q D L E R → Event Q E R → Prop} {ms : List (Move Q)}
    (hok : ∀ s e, s.Below n → ok s e) (h : s.Below n) (hm : s.schedule body n ms = some s') :
    RunsWhere body ok s s' := by
  induction ms generalizing s with
  | nil =>
    cases hm
    exact .refl
  | cons m ms ih =>
    obtain ⟨t, ht, hm⟩ := Option.bind_eq_some_iff.mp hm
    obtain ⟨⟨e, he⟩, hb⟩ := move_step h ht
    exact .head ⟨e, he, hok _ _ h⟩ (ih hb hm)

theorem runs_schedule {ms : List (Move Q)} (h : s.Below n)
    (hm : s.schedule body n ms = some s') : Runs body always s s' :=
  runsWhere_schedule (fun _ _ _ _ _ _ _ => trivial) h hm

omit [DecidableEq L] in
lemma below_quiet (d : D) : (State.quiet d : State Q D L E R).Below n := fun _ _ => rfl

/-- The answer of a call that is about to commit, with what it sees. -/
def State.outcome {α : Type} (s : State Q D L E R) (i : ℕ) (g : D → α) : Option (R × α) :=
  match s.calls i with
  | some c =>
    match c.rest with
    | .answer (.ok r) => some (r, g (c.view s.db))
    | _ => none
  | none => none

omit [DecidableEq L] in
lemma outcome_eq_some {α : Type} {i : ℕ} {g : D → α} {r : R} {a : α}
    (h : s.outcome i g = some (r, a)) :
    ∃ c, s.calls i = some c ∧ c.rest = .answer (.ok r) ∧ g (c.view s.db) = a := by
  unfold State.outcome at h
  split at h
  · next c hc =>
    split at h
    · next r' hr =>
      cases h
      exact ⟨c, hc, hr, rfl⟩
    · cases h
  · cases h

end MouseKeeper.ReadCommitted
