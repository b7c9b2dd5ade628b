import Mathlib.Tactic.Common

/-!
Machines that take labelled steps.

A step is a partial function of the state and a label; a run is a list of labels. A
condition on the steps is asked of the state in which each is taken.
-/

namespace MouseKeeper.Machine

variable {σ ℓ : Type} (step : σ → ℓ → Option σ) (ok : σ → ℓ → Prop)

def run (s : σ) : List ℓ → Option σ
  | [] => some s
  | l :: ls => (step s l).bind fun s' => run s' ls

/-- Every step of the run is taken where the condition holds. -/
def Meets (s : σ) : List ℓ → Prop
  | [] => True
  | l :: ls => ok s l ∧ ∀ s', step s l = some s' → Meets s' ls

variable {step ok} {s s' : σ} {ls : List ℓ}

instance Meets.decidable [∀ s l, Decidable (ok s l)] : ∀ s ls, Decidable (Meets step ok s ls)
  | _, [] => .isTrue trivial
  | s, l :: ls =>
    match h : step s l with
    | none => decidable_of_iff (ok s l) ⟨fun ho => ⟨ho, fun _ hs => by cases h.symm.trans hs⟩, (·.1)⟩
    | some s' =>
      have := Meets.decidable s' ls
      decidable_of_iff (ok s l ∧ Meets step ok s' ls)
        ⟨fun ho => ⟨ho.1, fun _ hs => Option.some.inj (h.symm.trans hs) ▸ ho.2⟩,
          fun hm => ⟨hm.1, hm.2 s' h⟩⟩

lemma meets_of_forall (h : ∀ l ∈ ls, ∀ s, ok s l) : Meets step ok s ls := by
  induction ls generalizing s with
  | nil => trivial
  | cons l ls ih =>
    exact ⟨h l List.mem_cons_self s, fun _ _ =>
      ih fun l' hl' => h l' (List.mem_cons_of_mem _ hl')⟩

/-- The condition holds where the run takes the step. -/
lemma Meets.at {ls' : List ℓ} {l : ℓ} (h : Meets step ok s (ls ++ l :: ls'))
    (hr : run step s ls = some s') : ok s' l := by
  induction ls generalizing s with
  | nil =>
    cases hr
    exact h.1
  | cons a ls ih =>
    obtain ⟨t, ht, hr⟩ := Option.bind_eq_some_iff.mp hr
    exact ih (h.2 t ht) hr

lemma Meets.prefix {ls' : List ℓ} (h : Meets step ok s (ls ++ ls')) : Meets step ok s ls := by
  induction ls generalizing s with
  | nil => exact trivial
  | cons a ls ih => exact ⟨h.1, fun t ht => ih (h.2 t ht)⟩

lemma Meets.append {ls' : List ℓ} (h : Meets step ok s ls)
    (h' : ∀ s', run step s ls = some s' → Meets step ok s' ls') : Meets step ok s (ls ++ ls') := by
  induction ls generalizing s with
  | nil => exact h' s rfl
  | cons l ls ih =>
    refine ⟨h.1, fun t ht => ih (h.2 t ht) fun s' hr => h' s' ?_⟩
    rw [run, ht]
    exact hr

lemma run_append {ls' : List ℓ} :
    run step s (ls ++ ls') = (run step s ls).bind fun s' => run step s' ls' := by
  induction ls generalizing s with
  | nil => rfl
  | cons l ls ih =>
    rw [List.cons_append, run, run, Option.bind_assoc]
    exact Option.bind_congr fun t _ => ih

/-- **An invariant of the steps holds to the end of a run.** -/
theorem run_invariant {I : σ → Prop}
    (hstep : ∀ {s l s'}, I s → ok s l → step s l = some s' → I s') (h : I s)
    (hok : Meets step ok s ls) (hr : run step s ls = some s') : I s' := by
  induction ls generalizing s with
  | nil =>
    cases hr
    exact h
  | cons l ls ih =>
    obtain ⟨t, ht, hr⟩ := Option.bind_eq_some_iff.mp hr
    exact ih (hstep h hok.1 ht) (hok.2 t ht) hr

/-- What only some steps may end holds to the end of a run, or one of those has been taken. -/
theorem run_or_taken {I : σ → Prop} {Q : ℓ → Prop}
    (hstep : ∀ {s l s'}, I s → ok s l → step s l = some s' → I s' ∨ Q l) (h : I s)
    (hok : Meets step ok s ls) (hr : run step s ls = some s') : I s' ∨ ∃ l ∈ ls, Q l := by
  induction ls generalizing s with
  | nil =>
    cases hr
    exact .inl h
  | cons l ls ih =>
    obtain ⟨t, ht, hr⟩ := Option.bind_eq_some_iff.mp hr
    obtain ht' | hq := hstep h hok.1 ht
    · exact (ih ht' (hok.2 t ht) hr).imp_right fun ⟨l', hl', hq⟩ =>
        ⟨l', List.mem_cons_of_mem _ hl', hq⟩
    · exact .inr ⟨l, List.mem_cons_self, hq⟩

variable (step) in
/-- What holds of every state of a run. -/
def Throughout (P : σ → Prop) (s : σ) : List ℓ → Prop
  | [] => P s
  | l :: ls => P s ∧ ∀ s', step s l = some s' → Throughout P s' ls

lemma Throughout.end {P : σ → Prop} (h : Throughout step P s ls) (hr : run step s ls = some s') :
    P s' := by
  induction ls generalizing s with
  | nil =>
    cases hr
    exact h
  | cons l ls ih =>
    obtain ⟨t, ht, hr⟩ := Option.bind_eq_some_iff.mp hr
    exact ih (h.2 t ht) hr

/-- **When a property holds throughout a run**: exactly if all its steps meet the condition, where
these keep an invariant and the others end the property at once. -/
theorem throughout_iff_meets {I P : σ → Prop} (hI : ∀ {s}, I s → P s)
    (hstep : ∀ {s l s'}, I s → step s l = some s' → (ok s l → I s') ∧ (P s' → ok s l)) (h : I s)
    (hr : run step s ls = some s') : Throughout step P s ls ↔ Meets step ok s ls := by
  induction ls generalizing s with
  | nil => exact ⟨fun _ => trivial, fun _ => hI h⟩
  | cons l ls ih =>
    obtain ⟨t, ht, hr⟩ := Option.bind_eq_some_iff.mp hr
    obtain ⟨hkeeps, hends⟩ := hstep h ht
    constructor
    · rintro ⟨-, hall⟩
      have htail := hall t ht
      have hok : ok s l := hends (by cases ls with | nil => exact htail | cons => exact htail.1)
      refine ⟨hok, fun s₁ hs₁ => ?_⟩
      cases ht.symm.trans hs₁
      exact (ih (hkeeps hok) hr).mp htail
    · rintro ⟨hok, hall⟩
      refine ⟨hI h, fun s₁ hs₁ => ?_⟩
      cases ht.symm.trans hs₁
      exact (ih (hkeeps hok) hr).mpr (hall t ht)

/-- Two conditions that are the same where an invariant holds are met by the same runs. -/
theorem meets_congr {I : σ → Prop} {ok' : σ → ℓ → Prop}
    (hstep : ∀ {s l s'}, I s → step s l = some s' → I s')
    (hiff : ∀ {s l}, I s → (ok s l ↔ ok' s l)) (h : I s) :
    Meets step ok s ls ↔ Meets step ok' s ls := by
  induction ls generalizing s with
  | nil => exact Iff.rfl
  | cons l ls ih =>
    constructor
    · exact fun hm => ⟨(hiff h).mp hm.1, fun t ht => (ih (hstep h ht)).mp (hm.2 t ht)⟩
    · exact fun hm => ⟨(hiff h).mpr hm.1, fun t ht => (ih (hstep h ht)).mpr (hm.2 t ht)⟩

/-- A relation that every step respects holds between the ends of a run. -/
theorem run_rel {I : σ → Prop} {P : σ → σ → Prop} (refl : ∀ s, P s s)
    (trans : ∀ {a b c}, P a b → P b c → P a c)
    (hstep : ∀ {s l s'}, I s → ok s l → step s l = some s' → I s' ∧ P s s') (h : I s)
    (hok : Meets step ok s ls) (hr : run step s ls = some s') : P s s' := by
  induction ls generalizing s with
  | nil =>
    cases hr
    exact refl _
  | cons l ls ih =>
    obtain ⟨t, ht, hr⟩ := Option.bind_eq_some_iff.mp hr
    obtain ⟨hi, hp⟩ := hstep h hok.1 ht
    exact trans hp (ih hi (hok.2 t ht) hr)

end MouseKeeper.Machine
