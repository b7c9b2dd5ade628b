import Mathlib.Logic.Function.Basic
import Mathlib.Logic.Relation
import Mathlib.Tactic.Common

/-!
Transactions under read committed.

A transaction is a program of statements. A statement reads the committed store with the
transaction's own changes on top, waits for the locks it needs, and keeps them to the end.
Its changes stay with the transaction until it commits, which makes them visible and gives
the locks back at one point; a transaction that is refused, aborted or cut off leaves no
trace. Nothing else orders the statements of different transactions.

The rule at the end is the one of rely and guarantee: an invariant of the committed store
and an assertion about each open call, where every assertion has to survive the commits of
the others, which hold disjoint locks.
-/

namespace MouseKeeper.ReadCommitted

variable {Q D L E R : Type}

/-- A transaction over a store `D` with locks `L`, which answers with an `R` or refuses
with an `E`. -/
inductive Txn (D L E R : Type) where
  | answer (r : Except E R)
  | stmt (locks : D → List L) (change : D → D → D) (next : D → Txn D L E R)

namespace Txn

/-- A statement that only reads. -/
def read (next : D → Txn D L E R) : Txn D L E R := .stmt (fun _ => []) (fun _ d => d) next

/-- A statement that reads rows and locks them. -/
def lock (locks : D → List L) (next : D → Txn D L E R) : Txn D L E R :=
  .stmt locks (fun _ d => d) next

/-- A statement that changes rows and locks them. -/
def write (locks : D → List L) (change : D → D → D) (next : Txn D L E R) : Txn D L E R :=
  .stmt locks change fun _ => next

/-- The transaction with its answer put into a larger type. -/
def map {R' : Type} (g : R → R') : Txn D L E R → Txn D L E R'
  | .answer r => .answer (r.map g)
  | .stmt locks change next => .stmt locks change fun d => (next d).map g

end Txn

/-- A request that is being served: its locks, its changes so far and what is left of it. -/
structure Call (Q D L E R : Type) where
  request : Q
  held : List L
  change : D → D
  rest : Txn D L E R

/-- What the call sees when `d` is committed. -/
def Call.view (c : Call Q D L E R) (d : D) : D := c.change d

/-- The call after one statement. -/
def Call.advance (c : Call Q D L E R) (d : D) (locks : D → List L) (change : D → D → D)
    (next : D → Txn D L E R) : Call Q D L E R where
  request := c.request
  held := locks (c.view d) ++ c.held
  change := fun d' => change (c.view d) (c.change d')
  rest := next (c.view d)

/-- The committed store and the open calls, by number. -/
structure State (Q D L E R : Type) where
  db : D
  calls : ℕ → Option (Call Q D L E R)

/-- No call is open. -/
def State.quiet (d : D) : State Q D L E R := ⟨d, fun _ => none⟩

/-- No call but `i` holds the lock. -/
def State.Free (s : State Q D L E R) (i : ℕ) (l : L) : Prop :=
  ∀ j c, j ≠ i → s.calls j = some c → l ∉ c.held

inductive Event (Q E R : Type) where
  | begin (i : ℕ) (q : Q)
  | stmt (i : ℕ)
  | commit (i : ℕ) (r : R)
  | refuse (i : ℕ) (e : E)
  | abort (i : ℕ)

variable (body : Q → Txn D L E R)

def Call.start (q : Q) : Call Q D L E R := ⟨q, [], id, body q⟩

/-- One step of one call. A call can be aborted at any point: a deadlock, a lost connection,
a failure of a statement that the transaction does not catch. -/
inductive Step (s : State Q D L E R) : Event Q E R → State Q D L E R → Prop
  | begin (i : ℕ) (q : Q) (h : s.calls i = none) :
    Step s (.begin i q) ⟨s.db, Function.update s.calls i (some (.start body q))⟩
  | stmt {i : ℕ} {c : Call Q D L E R} {locks change next} (h : s.calls i = some c)
    (hr : c.rest = .stmt locks change next) (hl : ∀ l ∈ locks (c.view s.db), s.Free i l) :
    Step s (.stmt i)
      ⟨s.db, Function.update s.calls i (some (c.advance s.db locks change next))⟩
  | commit {i : ℕ} {c : Call Q D L E R} {r : R} (h : s.calls i = some c)
    (hr : c.rest = .answer (.ok r)) :
    Step s (.commit i r) ⟨c.view s.db, Function.update s.calls i none⟩
  | refuse {i : ℕ} {c : Call Q D L E R} {e : E} (h : s.calls i = some c)
    (hr : c.rest = .answer (.error e)) :
    Step s (.refuse i e) ⟨s.db, Function.update s.calls i none⟩
  | abort {i : ℕ} {c : Call Q D L E R} (h : s.calls i = some c) :
    Step s (.abort i) ⟨s.db, Function.update s.calls i none⟩

/-- A condition on the statements: what is committed, and the call whose turn it is. -/
abbrev Cond (Q D L E R : Type) := D → Call Q D L E R → Prop

/-- A step whose statement, if it is one, meets the condition. -/
def Meets (ok : Cond Q D L E R) (s : State Q D L E R) (e : Event Q E R) : Prop :=
  ∀ i c, e = .stmt i → s.calls i = some c → ok s.db c

/-- Any number of steps that meet the condition. -/
def Runs (ok : Cond Q D L E R) : State Q D L E R → State Q D L E R → Prop :=
  Relation.ReflTransGen fun s s' => ∃ e, Step body s e s' ∧ Meets ok s e

/-- The condition that asks nothing. -/
def always : Cond Q D L E R := fun _ _ => True

/-- What has to be shown of the requests, for an invariant of the committed store and an
assertion about the open calls to hold throughout. -/
structure Rules (ok : Cond Q D L E R) (I : D → Prop) (A : D → Call Q D L E R → Prop) :
    Prop where
  start : ∀ {d} q, I d → A d (.start body q)
  stmt : ∀ {d} {c : Call Q D L E R} {locks change next}, I d → A d c → ok d c →
    c.rest = .stmt locks change next → A d (c.advance d locks change next)
  commit : ∀ {d} {c : Call Q D L E R} {r}, I d → A d c → c.rest = .answer (.ok r) →
    I (c.view d)
  stable : ∀ {d} {c c' : Call Q D L E R} {r}, I d → A d c → c.rest = .answer (.ok r) →
    A d c' → List.Disjoint c.held c'.held → A (c.view d) c'

/-- The invariant of whole states. -/
structure Sound (I : D → Prop) (A : D → Call Q D L E R → Prop) (s : State Q D L E R) :
    Prop where
  db : I s.db
  call : ∀ {i c}, s.calls i = some c → A s.db c
  apart : ∀ {i j c c'}, i ≠ j → s.calls i = some c → s.calls j = some c' →
    List.Disjoint c.held c'.held

variable {body} {ok : Cond Q D L E R} {I : D → Prop} {A : D → Call Q D L E R → Prop}
  {s s' : State Q D L E R} {e : Event Q E R}

lemma Sound.quiet {d : D} (h : I d) : Sound (L := L) (E := E) (R := R) I A (.quiet d) where
  db := h
  call := fun hc => by cases hc
  apart := fun _ hc => by cases hc

/-- A call that ends leaves the others as they are. -/
lemma calls_drop {i j : ℕ} {c : Call Q D L E R}
    (h : Function.update s.calls i none j = some c) : j ≠ i ∧ s.calls j = some c := by
  by_cases hij : j = i
  · subst hij
    simp at h
  · exact ⟨hij, by rwa [Function.update_of_ne hij] at h⟩

lemma calls_set {i j : ℕ} {c c' : Call Q D L E R}
    (h : Function.update s.calls i (some c') j = some c) :
    (j = i ∧ c = c') ∨ (j ≠ i ∧ s.calls j = some c) := by
  by_cases hij : j = i
  · subst hij
    simp only [Function.update_self, Option.some.injEq] at h
    exact .inl ⟨rfl, h.symm⟩
  · exact .inr ⟨hij, by rwa [Function.update_of_ne hij] at h⟩

/-- Ending a call without a trace keeps the state sound. -/
lemma Sound.drop (h : Sound I A s) (i : ℕ) :
    Sound I A ⟨s.db, Function.update s.calls i none⟩ where
  db := h.db
  call := fun hc => h.call (calls_drop hc).2
  apart := fun hij hi hj => h.apart hij (calls_drop hi).2 (calls_drop hj).2

/-- Replacing the call `i` by one that holds only free locks keeps the state sound. -/
lemma Sound.set {i : ℕ} {c' : Call Q D L E R} (h : Sound I A s) (hA : A s.db c')
    (hf : ∀ l ∈ c'.held, s.Free i l) :
    Sound I A ⟨s.db, Function.update s.calls i (some c')⟩ where
  db := h.db
  call := fun hc => by
    rcases calls_set hc with ⟨-, rfl⟩ | ⟨-, hc⟩
    · exact hA
    · exact h.call hc
  apart := fun {j k c₁ c₂} hjk hj hk => by
    rcases calls_set hj with ⟨hji, hc₁⟩ | ⟨hji, hc₁⟩ <;>
      rcases calls_set hk with ⟨hki, hc₂⟩ | ⟨hki, hc₂⟩
    · exact absurd (hji.trans hki.symm) hjk
    · exact fun l hl hl' => hf l (hc₁ ▸ hl) k c₂ hki hc₂ hl'
    · exact fun l hl hl' => hf l (hc₂ ▸ hl') j c₁ hji hc₁ hl
    · exact h.apart hjk hc₁ hc₂

/-- **One step keeps the invariant.** -/
theorem Rules.step (R' : Rules body ok I A) (h : Sound I A s) (hs : Step body s e s')
    (hok : Meets ok s e) : Sound I A s' := by
  cases hs with
  | begin i q _ => exact h.set (R'.start q h.db) fun l hl => by cases hl
  | @stmt i c locks change next hc hr hl =>
    refine h.set (R'.stmt h.db (h.call hc) (hok i c rfl hc) hr) fun l hm => ?_
    rcases List.mem_append.mp hm with hm | hm
    · exact hl l hm
    · exact fun j c' hj hc' => h.apart (Ne.symm hj) hc hc' hm
  | @commit i c r hc hr =>
    refine ⟨R'.commit h.db (h.call hc) hr, fun hd => ?_, fun hij hi hj =>
      h.apart hij (calls_drop hi).2 (calls_drop hj).2⟩
    obtain ⟨hj, hc'⟩ := calls_drop hd
    exact R'.stable h.db (h.call hc) hr (h.call hc') (h.apart (Ne.symm hj) hc hc')
  | refuse _ _ => exact h.drop _
  | abort _ => exact h.drop _

/-- **A whole run keeps the invariant.** -/
theorem Rules.run (R' : Rules body ok I A) (h : Sound I A s) (hr : Runs body ok s s') :
    Sound I A s' := by
  induction hr with
  | refl => exact h
  | tail _ hs ih =>
    obtain ⟨e, hs, hok⟩ := hs
    exact R'.step ih hs hok

/-- A relation that every commit respects holds between the ends of every run. -/
theorem Rules.run_rel {P : D → D → Prop} (R' : Rules body ok I A) (h : Sound I A s)
    (refl : ∀ d, P d d) (trans : ∀ {a b c}, P a b → P b c → P a c)
    (commit : ∀ {d} {c : Call Q D L E R} {r}, I d → A d c → c.rest = .answer (.ok r) →
      P d (c.view d))
    (hr : Runs body ok s s') : P s.db s'.db := by
  induction hr with
  | refl => exact refl _
  | @tail b c hb hs ih =>
    obtain ⟨e, hs, -⟩ := hs
    have hb := R'.run h hb
    refine trans ih ?_
    cases hs with
    | commit hc hr => exact commit hb.db (hb.call hc) hr
    | begin | stmt | refuse | abort => exact refl _

/-- The answer that a step gives, with its request. -/
def State.answered (s : State Q D L E R) : Event Q E R → List (Q × R)
  | .commit i r => (s.calls i).toList.map fun c => (c.request, r)
  | _ => []

/-! ### Transactions one at a time -/

/-- What a transaction leaves committed when it runs with no other open. -/
def Txn.alone : Txn D L E R → (D → D) → D → D
  | .answer (.ok _), f, d => f d
  | .answer (.error _), _, d => d
  | .stmt _ change next, f, d => (next (f d)).alone (fun d' => change (f d) (f d')) d

/-- What a transaction answers when it runs with no other open. -/
def Txn.aloneAnswer : Txn D L E R → (D → D) → D → List R
  | .answer (.ok r), _, _ => [r]
  | .answer (.error _), _, _ => []
  | .stmt _ change next, f, d => (next (f d)).aloneAnswer (fun d' => change (f d) (f d')) d

/-- The state in which `c` is the only open call. -/
def State.lone (d : D) (c : Call Q D L E R) : State Q D L E R :=
  ⟨d, Function.update (fun _ => none) 0 (some c)⟩

lemma update_none (d : D) :
    (⟨d, Function.update (fun _ => none) 0 none⟩ : State Q D L E R) = .quiet d := by
  rw [Function.update_eq_self (f := fun _ => none) (a := 0)]
  rfl

section Lift

variable {σ : Type} {T : σ → σ → Prop} {g : State Q D L E R → List (Q × R) → σ}
  {q : Q} {d : D}

/-- Every step that serves the request `q` over the store `d`, with nothing else open, is one
of a larger system. -/
def Lifts (body : Q → Txn D L E R) (q : Q) (d : D) (T : σ → σ → Prop)
    (g : State Q D L E R → List (Q × R) → σ) : Prop :=
  ∀ {s e s'} l, Step body s e s' → s.db = d → (∀ i c, s.calls i = some c → c.request = q) →
    (∀ i q', e = .begin i q' → q' = q) → T (g s l) (g s' (s.answered e ++ l))

lemma Lifts.lone (h : Lifts body q d T g) {c : Call Q D L E R} {e s'} (l)
    (hs : Step body (.lone d c) e s') (hc : c.request = q) (he : ∀ i q', e ≠ .begin i q') :
    T (g (.lone d c) l) (g s' ((State.lone d c).answered e ++ l)) := by
  refine h l hs rfl (fun i c' hc' => ?_) fun i q' hq => absurd hq (he i q')
  rcases calls_set (s := ⟨d, fun _ => none⟩) hc' with ⟨-, rfl⟩ | ⟨-, hc'⟩
  · exact hc
  · cases hc'

lemma Lifts.rest (h : Lifts body q d T g) (l : List (Q × R)) :
    ∀ (t : Txn D L E R) (held : List L) (f : D → D),
      Relation.ReflTransGen T (g (.lone d ⟨q, held, f, t⟩) l)
        (g (.quiet (t.alone f d)) ((t.aloneAnswer f d).map (q, ·) ++ l))
  | .answer (.ok r), held, f => by
    have hs : Step body (.lone d ⟨q, held, f, .answer (.ok r)⟩) (.commit 0 r) _ :=
      .commit (c := ⟨q, held, f, .answer (.ok r)⟩) (by simp [State.lone]) rfl
    have ht := h.lone l hs rfl fun _ _ he => by cases he
    simp only [Call.view, State.lone, Function.update_idem, update_none, State.answered,
      Function.update_self, Option.toList_some, List.map_cons, List.map_nil] at ht
    exact .single ht
  | .answer (.error e), held, f => by
    have hs : Step body (.lone d ⟨q, held, f, .answer (.error e)⟩) (.refuse 0 e) _ :=
      .refuse (c := ⟨q, held, f, .answer (.error e)⟩) (by simp [State.lone]) rfl
    have ht := h.lone l hs rfl fun _ _ he => by cases he
    simp only [State.lone, Function.update_idem, update_none, State.answered] at ht
    exact .single ht
  | .stmt locks change next, held, f => by
    have hs : Step body (.lone d ⟨q, held, f, .stmt locks change next⟩) (.stmt 0) _ :=
      .stmt (c := ⟨q, held, f, .stmt locks change next⟩) (by simp [State.lone]) rfl
        fun _ _ j c hj hc => by simp [State.lone, Function.update_of_ne hj] at hc
    have ht := h.lone l hs rfl fun _ _ he => by cases he
    simp only [State.lone, Function.update_idem] at ht
    exact .head ht (h.rest l (next (f d)) _ _)

/-- **A request served with no other open**, in a larger system. -/
theorem Lifts.alone (h : Lifts body q d T g) (l : List (Q × R)) :
    Relation.ReflTransGen T (g (.quiet d) l) (g (.quiet ((body q).alone id d))
      (((body q).aloneAnswer id d).map (q, ·) ++ l)) := by
  refine .head (h l (.begin 0 q rfl) rfl (fun _ _ hc => by cases hc) fun i q' he => ?_)
    (h.rest l _ _ _)
  cases he
  rfl

end Lift

/-- A request served with no other open is a run, where the condition asks nothing of it. -/
theorem runs_alone_of (body : Q → Txn D L E R) (q : Q) (d : D)
    (h : ∀ c : Call Q D L E R, c.request = q → ok d c) :
    Runs body ok (.quiet d) (.quiet ((body q).alone id d)) := by
  have hl : Lifts body q d (fun s s' => ∃ e, Step body s e s' ∧ Meets ok s e) fun s _ => s :=
    fun l hs hd hc _ => ⟨_, hs, fun i c _ hi => hd ▸ h c (hc i c hi)⟩
  exact hl.alone []

end MouseKeeper.ReadCommitted
