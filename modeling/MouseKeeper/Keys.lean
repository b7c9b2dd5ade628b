import Mathlib.Data.List.Nodup
import MouseKeeper.Trace

/-!
Keys that a program uses up.

Some steps of a program bear a key, and some keys are known in a state. A program is fresh if it
takes no key twice and none that is known when it starts, and if what it has taken is known when
it succeeds. Fresh programs follow one another.
-/

namespace MouseKeeper.Trace

open Prog

variable {σ ℓ ε ε' α β κ : Type} (key : ℓ → Option κ)

/-- The keys of a run, in order. -/
def keys (m : Prog σ ℓ ε α) (s : σ) : List κ := (m.run s).steps.filterMap fun x => key x.1

variable {key} {known : σ → κ → Prop} {m : Prog σ ℓ ε α} {f : α → Prog σ ℓ ε β} {s s' : σ}

lemma keys_bind {a : α} (h : Ends m s a s') :
    keys key (m >>= f) s = keys key m s ++ keys key (f a) s' := by
  unfold keys
  rw [run_bind_ok h, List.filterMap_append]

lemma keys_bind_error {e : ε} (h : (m.run s).result = .error e) :
    keys key (m >>= f) s = keys key m s := by
  unfold keys
  rw [run_bind_error h]

lemma keys_eq_nil (h : Emits (fun e => key e = none) m s) : keys key m s = [] :=
  List.filterMap_eq_nil_iff.mpr h

variable (key known) in
structure Fresh (m : Prog σ ℓ ε α) (s : σ) : Prop where
  nodup : (keys key m s).Nodup
  new : ∀ k ∈ keys key m s, ¬ known s k
  ends : ∀ a s', Ends m s a s' → (∀ k, known s k → known s' k) ∧ ∀ k ∈ keys key m s, known s' k

lemma Fresh.bind (hm : Fresh key known m s)
    (hf : ∀ a s', Ends m s a s' → Fresh key known (f a) s') : Fresh key known (m >>= f) s := by
  rcases ends_or_fails m s with ⟨a, s', h⟩ | ⟨e, he⟩
  · have hk : keys key (m >>= f) s = keys key m s ++ keys key (f a) s' := keys_bind h
    obtain ⟨hmono, hknown⟩ := hm.ends a s' h
    have hn := hf a s' h
    refine ⟨?_, fun k hk' => ?_, fun b s'' hb => ?_⟩
    · rw [hk]
      exact List.Nodup.append hm.nodup hn.nodup fun k h1 h2 => hn.new k h2 (hknown k h1)
    · rw [hk] at hk'
      rcases List.mem_append.mp hk' with h1 | h1
      · exact hm.new k h1
      · exact fun h2 => hn.new k h1 (hmono k h2)
    · obtain ⟨a', s₁, h', hb⟩ := ends_bind.mp hb
      obtain ⟨rfl, rfl⟩ := h.unique h'
      obtain ⟨hmono', hknown'⟩ := hn.ends b s'' hb
      refine ⟨fun k hs => hmono' k (hmono k hs), fun k hk' => ?_⟩
      rw [hk] at hk'
      rcases List.mem_append.mp hk' with h1 | h1
      · exact hmono' k (hknown k h1)
      · exact hknown' k h1
  · have hk : keys key (m >>= f) s = keys key m s := keys_bind_error he
    refine ⟨hk ▸ hm.nodup, hk ▸ hm.new, fun b s'' hb => ?_⟩
    rw [Ends, run_bind_error he] at hb
    cases hb.1

/-- A program without keys. -/
lemma Fresh.of_none (h : Emits (fun e => key e = none) m s)
    (hmono : ∀ a s', Ends m s a s' → ∀ k, known s k → known s' k) : Fresh key known m s := by
  have hk := keys_eq_nil h
  exact ⟨hk ▸ .nil, fun k hm => absurd (hk ▸ hm) List.not_mem_nil,
    fun a s' ha => ⟨hmono a s' ha, fun k hm => absurd (hk ▸ hm) List.not_mem_nil⟩⟩

lemma Fresh.mapErr {g : ε → ε'} (h : Fresh key known m s) :
    Fresh key known (Prog.mapErr g m) s :=
  ⟨h.nodup, h.new, fun a s' he => h.ends a s' (ends_mapErr.mp he)⟩

/-! ### Programs that take one key -/

variable (key) in
def Once (k : κ) (m : Prog σ ℓ ε α) (s : σ) : Prop := (keys key m s).Sublist [k]

variable {k : κ}

lemma Once.of_none (h : Emits (fun e => key e = none) m s) : Once key k m s := by
  rw [Once, keys_eq_nil h]
  exact List.nil_sublist _

lemma Once.left (hm : Once key k m s)
    (hf : ∀ a s', Ends m s a s' → Emits (fun e => key e = none) (f a) s') :
    Once key k (m >>= f) s := by
  unfold Once
  rcases ends_or_fails m s with ⟨a, s', h⟩ | ⟨e, he⟩
  · rw [keys_bind h, keys_eq_nil (hf a s' h), List.append_nil]
    exact hm
  · rw [keys_bind_error he]
    exact hm

lemma Once.right (hm : Emits (fun e => key e = none) m s)
    (hf : ∀ a s', Ends m s a s' → Once key k (f a) s') : Once key k (m >>= f) s := by
  unfold Once
  rcases ends_or_fails m s with ⟨a, s', h⟩ | ⟨e, he⟩
  · rw [keys_bind h, keys_eq_nil hm, List.nil_append]
    exact hf a s' h
  · rw [keys_bind_error he, keys_eq_nil hm]
    exact List.nil_sublist _

lemma Once.mapErr {g : ε → ε'} (h : Once key k m s) : Once key k (Prog.mapErr g m) s := h

lemma Once.step {f : σ → Except ε (α × ℓ × σ)}
    (h : ∀ a e s', f s = .ok (a, e, s') → key e = some k) : Once key k (step f) s := by
  unfold Once keys
  cases hf : f s with
  | error e => simp [run_step_error hf]
  | ok x =>
    obtain ⟨a, e, s'⟩ := x
    simp [run_step_ok hf, h a e s' hf]

lemma Fresh.once (hm : Once key k m s) (hk : ¬ known s k)
    (hends : ∀ a s', Ends m s a s' → (∀ x, known s x → known s' x) ∧ known s' k) :
    Fresh key known m s where
  nodup := (List.nodup_singleton k).sublist hm
  new x hx := List.mem_singleton.mp (hm.subset hx) ▸ hk
  ends a s' h := ⟨(hends a s' h).1, fun x hx =>
    List.mem_singleton.mp (hm.subset hx) ▸ (hends a s' h).2⟩

/-! ### Loops -/

/-- A loop is fresh if each item is, in the state in which it is reached. -/
lemma Fresh.loop {f : ℕ → α → β → Prog σ ℓ ε β} {Q : ℕ → α → σ → Prop} {as : List α} {i : ℕ}
    {b : β} {I : σ → Prop} (hs : I s) (h : AtEach f Q as i b s)
    (hf : ∀ i a b s, I s → Q i a s → Fresh key known (f i a b) s)
    (hI : ∀ i a b s b' s', I s → Q i a s → Ends (f i a b) s b' s' → I s') :
    Fresh key known (Prog.loop f as i b) s := by
  induction as generalizing i b s with
  | nil =>
    refine .of_none (emits_pure _) fun a s' he k hk => ?_
    obtain ⟨-, rfl⟩ := ends_pure.mp he
    exact hk
  | cons a as ih =>
    exact (hf i a b s hs h.1).bind fun b' s' he => ih (hI i a b s b' s' hs h.1 he) (h.2 b' s' he)

end MouseKeeper.Trace
