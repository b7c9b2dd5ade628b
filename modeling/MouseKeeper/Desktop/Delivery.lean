import MouseKeeper.Machine
import MouseKeeper.Desktop.Outbox

/-!
What the outbox keeps over any sequence of operations, and when its flushes deliver the
reports of one kind in order.
-/

namespace MouseKeeper.Desktop.Outbox

open MouseKeeper.Machine

/-! ### The table -/

/-- What never changes about a row, and what is final once it has left `pending`. -/
structure Row.Later (r r' : Row) : Prop where
  id : r'.id = r.id
  kind : r'.kind = r.kind
  key : r'.key = r.key
  payload : r'.payload = r.payload
  final : r.state ≠ .pending → r' = r

/-- Every row is still there. -/
def Store.Later (s s' : Store) : Prop := ∀ r ∈ s.rows, ∃ r' ∈ s'.rows, r.Later r'

structure Store.Valid (plain : String → Bool) (s : Store) : Prop where
  bound : ∀ r ∈ s.rows, r.id < s.nextId
  ids : (s.rows.map (·.id)).Nodup
  keys : (s.rows.map fun r => (r.kind, r.key)).Nodup
  newest : ∀ r ∈ s.rows, plain r.kind = false → r.state = .pending →
    ∀ r' ∈ s.rows, r'.kind = r.kind → r'.key ≤ r.key

lemma Row.Later.refl (r : Row) : r.Later r := ⟨rfl, rfl, rfl, rfl, fun _ => rfl⟩

lemma Row.Later.trans {a b c : Row} (h : a.Later b) (h' : b.Later c) : a.Later c where
  id := h'.id.trans h.id
  kind := h'.kind.trans h.kind
  key := h'.key.trans h.key
  payload := h'.payload.trans h.payload
  final hp := by
    have hb := h.final hp
    rw [h'.final (by rw [hb]; exact hp), hb]

lemma Store.Later.refl (s : Store) : s.Later s := fun r hr => ⟨r, hr, .refl r⟩

lemma Store.Later.trans {a b c : Store} (h : a.Later b) (h' : b.Later c) : a.Later c := by
  intro r hr
  obtain ⟨r', hr', hl⟩ := h r hr
  obtain ⟨r'', hr'', hl'⟩ := h' r' hr'
  exact ⟨r'', hr'', hl.trans hl'⟩

lemma Store.Valid.empty (plain : String → Bool) : Store.empty.Valid plain :=
  ⟨by simp [Store.empty], List.nodup_nil, List.nodup_nil, by simp [Store.empty]⟩

section Map

variable {plain : String → Bool} {s : Store} {f : Row → Row}

/-- A change of single rows. -/
def Store.change (f : Row → Row) (s : Store) : Store := { s with rows := s.rows.map f }

lemma Store.later_change (hf : ∀ r : Row, r.Later (f r)) : s.Later (s.change f) :=
  fun r hr => ⟨f r, List.mem_map_of_mem hr, hf r⟩

/-- Changes of single rows that bring none back to `pending` keep the table valid. -/
lemma Store.Valid.change (h : s.Valid plain) (hf : ∀ r : Row, r.Later (f r)) :
    (s.change f).Valid plain where
  bound r hr := by
    obtain ⟨x, hx, rfl⟩ := List.mem_map.mp hr
    rw [(hf x).id]
    exact h.bound x hx
  ids := by
    have hm : (s.rows.map f).map (·.id) = s.rows.map (·.id) := by
      rw [List.map_map]
      exact List.map_congr_left fun x _ => (hf x).id
    exact hm ▸ h.ids
  keys := by
    have hm : (s.rows.map f).map (fun r => (r.kind, r.key)) =
        s.rows.map fun r => (r.kind, r.key) := by
      rw [List.map_map]
      refine List.map_congr_left fun x _ => ?_
      simp only [Function.comp_apply, (hf x).kind, (hf x).key]
    exact hm ▸ h.keys
  newest r hr hk hp r' hr' hkind := by
    obtain ⟨x, hx, rfl⟩ := List.mem_map.mp hr
    obtain ⟨x', hx', rfl⟩ := List.mem_map.mp hr'
    have hxp : x.state = .pending := by
      by_contra hxp
      rw [(hf x).final hxp] at hp
      exact hxp hp
    rw [(hf x').kind, (hf x).kind] at hkind
    rw [(hf x').key, (hf x).key]
    rw [(hf x).kind] at hk
    exact h.newest x hx hk hxp x' hx' hkind

/-- A change that only pending rows undergo. -/
lemma later_ite {p : Prop} [Decidable p] {r r' : Row} (hp : p → r.state = .pending)
    (hg : r'.id = r.id ∧ r'.kind = r.kind ∧ r'.key = r.key ∧ r'.payload = r.payload) :
    r.Later (if p then r' else r) := by
  split
  · obtain ⟨hid, hk, hkey, hpay⟩ := hg
    exact ⟨hid, hk, hkey, hpay, fun hn => absurd (hp ‹_›) hn⟩
  · exact .refl r

end Map

section Insert

variable {plain : String → Bool} {s : Store} {kind key payload : String}

lemma Store.later_insert : s.Later (s.insert kind key payload) :=
  fun r hr => ⟨r, List.mem_append_left _ hr, .refl r⟩

/-- A row under a free key that is the newest of its kind. -/
lemma Store.Valid.insert (h : s.Valid plain)
    (hk : ∀ r ∈ s.rows, ¬ (r.kind = kind ∧ r.key = key))
    (hn : plain kind = false → ∀ r ∈ s.rows, r.kind = kind →
      r.key ≤ key ∧ r.state ≠ .pending) :
    (s.insert kind key payload).Valid plain where
  bound r hr := by
    rcases List.mem_append.mp hr with hr | hr
    · exact Nat.lt_succ_of_lt (h.bound r hr)
    · rw [List.mem_singleton.mp hr]
      exact Nat.lt_succ_self _
  ids := by
    rw [Store.insert, List.map_append]
    refine List.nodup_append.mpr ⟨h.ids, by simp, fun a ha b hb => ?_⟩
    obtain ⟨r, hr, rfl⟩ := List.mem_map.mp ha
    rw [List.map_singleton, List.mem_singleton] at hb
    rw [hb]
    exact Nat.ne_of_lt (h.bound r hr)
  keys := by
    rw [Store.insert, List.map_append]
    refine List.nodup_append.mpr ⟨h.keys, by simp, fun a ha b hb hab => ?_⟩
    obtain ⟨r, hr, rfl⟩ := List.mem_map.mp ha
    rw [List.map_singleton, List.mem_singleton] at hb
    rw [hb, Prod.mk.injEq] at hab
    exact hk r hr hab
  newest r hr hp hs r' hr' hkind := by
    rcases List.mem_append.mp hr with hr | hr <;>
      rcases List.mem_append.mp hr' with hr' | hr'
    · exact h.newest r hr hp hs r' hr' hkind
    · rw [List.mem_singleton.mp hr'] at hkind
      exact absurd hs (hn (by rwa [← hkind] at hp) r hr hkind.symm).2
    · rw [List.mem_singleton.mp hr] at hp hkind ⊢
      exact (hn hp r' hr' hkind).1
    · rw [List.mem_singleton.mp hr, List.mem_singleton.mp hr']

end Insert

lemma later_supersede (kind key : String) (r : Row) :
    r.Later (if r.kind = kind ∧ r.state = .pending ∧ r.key < key
      then { r with state := .superseded } else r) :=
  later_ite (fun h => h.2.1) ⟨rfl, rfl, rfl, rfl⟩

lemma later_update (id : ℕ) (state : RowState) (error : Option String) (r : Row) :
    r.Later (if r.id = id ∧ r.state = .pending then
      { r with
        state
        attempts := r.attempts + if state = .sent then 0 else 1
        lastError := error.or r.lastError }
    else r) :=
  later_ite (fun h => h.2) ⟨rfl, rfl, rfl, rfl⟩

/-- **Every operation keeps the table valid and its rows.** -/
lemma Store.Valid.enqueue {plain : String → Bool} {s : Store} {kind : String}
    (h : s.Valid plain) (hk : plain kind = true) (key payload : String) :
    (s.enqueue kind key payload).Valid plain ∧ s.Later (s.enqueue kind key payload) := by
  rw [Store.enqueue]
  split
  · exact ⟨h, .refl s⟩
  · rename_i hn
    simp only [List.any_eq_true, Bool.and_eq_true, decide_eq_true_eq, not_exists,
      not_and] at hn
    refine ⟨h.insert (fun r hr hrk => hn r hr hrk.1 hrk.2) fun hf => ?_, Store.later_insert⟩
    rw [hk] at hf
    cases hf

lemma Store.Valid.enqueueReplacing {plain : String → Bool} {s : Store}
    (h : s.Valid plain) (kind key payload : String) :
    (s.enqueueReplacing kind key payload).Valid plain ∧
      s.Later (s.enqueueReplacing kind key payload) := by
  have hl := Store.later_change (s := s) (later_supersede kind key)
  have hv := h.change (later_supersede kind key)
  change s.Later (s.supersede kind key) at hl
  change (s.supersede kind key).Valid plain at hv
  rw [Store.enqueueReplacing]
  split
  · exact ⟨hv, hl⟩
  · rename_i hn
    simp only [List.any_eq_true, Bool.and_eq_true, decide_eq_true_eq, not_exists,
      not_and, not_le] at hn
    refine ⟨hv.insert (fun r hr hrk => ?_) fun _ r hr hrk => ⟨?_, ?_⟩,
      hl.trans Store.later_insert⟩
    · exact absurd hrk.2 (ne_of_lt (hn r hr hrk.1))
    · exact (hn r hr hrk).le
    · -- the older rows have just left `pending`
      have hlt := hn r hr hrk
      obtain ⟨x, hx, rfl⟩ := List.mem_map.mp hr
      by_cases hc : x.kind = kind ∧ x.state = .pending ∧ x.key < key
      · rw [if_pos hc]
        simp
      · rw [if_neg hc] at hrk hlt ⊢
        exact fun hp => hc ⟨hrk, hp, hlt⟩

lemma Store.Valid.mark {plain : String → Bool} {s : Store} (h : s.Valid plain) (id : ℕ)
    (o : Outcome) : (s.mark id o).Valid plain ∧ s.Later (s.mark id o) := by
  cases o with
  | sent =>
    exact ⟨h.change (later_update id .sent none), Store.later_change (later_update id _ _)⟩
  | transient code =>
    exact ⟨h.change (later_update id .pending (some code)),
      Store.later_change (later_update id _ _)⟩
  | terminal code =>
    exact ⟨h.change (later_update id .failed (some code)),
      Store.later_change (later_update id _ _)⟩

/-- A replacing kind has at most one pending row. -/
lemma Store.Valid.one_pending {plain : String → Bool} {s : Store} (h : s.Valid plain)
    {r r' : Row} (hr : r ∈ s.rows) (hr' : r' ∈ s.rows) (hk : plain r.kind = false)
    (hkind : r'.kind = r.kind) (hp : r.state = .pending) (hp' : r'.state = .pending) :
    r = r' := by
  have hle := h.newest r hr hk hp r' hr' hkind
  have hge := h.newest r' hr' (by rw [hkind]; exact hk) hp' r hr hkind.symm
  exact List.inj_on_of_nodup_map h.keys hr hr' (by rw [hkind, le_antisymm hle hge])

/-! ### Flushes -/

/-- The item was read from a row of the table. -/
def Known (s : Store) (x : Row) : Prop :=
  ∃ r ∈ s.rows, r.id = x.id ∧ r.kind = x.kind ∧ r.key = x.key

lemma Known.later {s s' : Store} {x : Row} (h : Known s x) (hl : s.Later s') : Known s' x := by
  obtain ⟨r, hr, hid, hkind, hkey⟩ := h
  obtain ⟨r', hr', hlr⟩ := hl r hr
  exact ⟨r', hr', hlr.id.trans hid, hlr.kind.trans hkind, hlr.key.trans hkey⟩

/-- The items that some flush still has to dispatch. -/
def World.Waiting (w : World) (x : Row) : Prop := ∃ i f, w.flushes i = some f ∧ x ∈ f.rest

/-- The order of two reports of one replacing kind. -/
def InOrder (plain : String → Bool) (x y : Row) : Prop :=
  x.kind = y.kind → plain x.kind = false → x.key ≤ y.key

structure World.Ordered (plain : String → Bool) (w : World) : Prop where
  store : w.store.Valid plain
  waiting : ∀ x, w.Waiting x → Known w.store x
  delivered : ∀ x ∈ w.delivered, Known w.store x
  level : ∀ x y, w.Waiting x → w.Waiting y → InOrder plain x y
  behind : ∀ x ∈ w.delivered, ∀ y, w.Waiting y → InOrder plain x y
  ordered : w.delivered.Pairwise (InOrder plain)

variable {plain : String → Bool}

lemma World.waiting_setFlush {w : World} {i : ℕ} {f : Option Flush} {x : Row}
    (h : (w.setFlush i f).Waiting x) : w.Waiting x ∨ ∃ g, f = some g ∧ x ∈ g.rest := by
  obtain ⟨j, g, hg, hx⟩ := h
  by_cases hj : j = i
  · subst hj
    simp only [setFlush, Function.update_self] at hg
    exact .inr ⟨g, hg, hx⟩
  · simp only [setFlush, Function.update_of_ne hj] at hg
    exact .inl ⟨j, g, hg, hx⟩

/-- Changes of the table that keep its rows, while no flush gets a new item and nothing is
delivered. -/
lemma World.Ordered.mono {w w' : World} (h : w.Ordered plain)
    (hs : w'.store.Valid plain) (hl : w.store.Later w'.store)
    (hw : ∀ x, w'.Waiting x → w.Waiting x) (hd : w'.delivered = w.delivered) :
    w'.Ordered plain where
  store := hs
  waiting x hx := (h.waiting x (hw x hx)).later hl
  delivered x hx := (h.delivered x (by rwa [hd] at hx)).later hl
  level x y hx hy := h.level x y (hw x hx) (hw y hy)
  behind x hx y hy := h.behind x (by rwa [hd] at hx) y (hw y hy)
  ordered := by
    rw [hd]
    exact h.ordered

/-- The rows of a batch are pending rows of the table. -/
lemma mem_pendingBatch {s : Store} {n : ℕ} {x : Row} (h : x ∈ s.pendingBatch n) :
    x ∈ s.rows ∧ x.state = .pending := by
  have := List.mem_of_mem_take h
  simpa using this

/-- What is pending is at least as new as all that is known. -/
lemma Store.Valid.known_le {s : Store} (h : s.Valid plain) {x y : Row} (hx : Known s x)
    (hy : y ∈ s.rows) (hp : y.state = .pending) : InOrder plain x y := by
  obtain ⟨r, hr, -, hkind, hkey⟩ := hx
  intro hxy hk
  rw [← hkey]
  exact h.newest y hy (by rw [← hxy]; exact hk) hp r hr (hkind.trans hxy)

lemma World.Ordered.begin {w : World} (h : w.Ordered plain) {i : ℕ}
    (hc : w.Clear plain (.begin i)) :
    (w.setFlush i (some ⟨none, w.store.pendingBatch flushBatch⟩)).Ordered plain := by
  have hnew : ∀ x, (w.setFlush i (some ⟨none, w.store.pendingBatch flushBatch⟩)).Waiting x →
      w.Waiting x ∨ (x ∈ w.store.rows ∧ x.state = .pending ∧
        x ∈ w.store.pendingBatch flushBatch) := by
    intro x hx
    rcases waiting_setFlush hx with hx | ⟨g, hg, hx⟩
    · exact .inl hx
    · cases hg
      exact .inr ⟨(mem_pendingBatch hx).1, (mem_pendingBatch hx).2, hx⟩
  have hknown : ∀ x, (w.setFlush i
      (some ⟨none, w.store.pendingBatch flushBatch⟩)).Waiting x → Known w.store x := by
    intro x hx
    rcases hnew x hx with hx | ⟨hx, -, -⟩
    · exact h.waiting x hx
    · exact ⟨x, hx, rfl, rfl, rfl⟩
  refine ⟨h.store, hknown, h.delivered, fun x y hx hy => ?_, fun x hx y hy => ?_, h.ordered⟩
  · rcases hnew y hy with hy | ⟨hy, hp, -⟩
    · rcases hnew x hx with hx | ⟨-, -, hx⟩
      · exact h.level x y hx hy
      · -- the other flush holds no older row of the kind
        intro hk hpl
        obtain ⟨j, g, hg, hyg⟩ := hy
        exact not_lt.mp (hc j g hg y hyg (by rw [← hk]; exact hpl) x hx hk)
    · exact h.store.known_le (hknown x hx) hy hp
  · rcases hnew y hy with hy | ⟨hy, hp, -⟩
    · exact h.behind x hx y hy
    · exact h.store.known_le (h.delivered x hx) hy hp

lemma World.Ordered.dispatch {w : World} (h : w.Ordered plain) {i : ℕ} {x : Row}
    {rest : List Row} (hf : w.flushes i = some ⟨none, x :: rest⟩) (reached : Bool)
    (o : Outcome) : World.Ordered plain { w.setFlush i (some ⟨some (x, o), rest⟩) with
      delivered := if reached then w.delivered ++ [x] else w.delivered } := by
  have hx : w.Waiting x := ⟨i, _, hf, by simp⟩
  have hw : ∀ y, (w.setFlush i (some ⟨some (x, o), rest⟩)).Waiting y → w.Waiting y := by
    intro y hy
    rcases waiting_setFlush hy with hy | ⟨g, hg, hy⟩
    · exact hy
    · cases hg
      exact ⟨i, _, hf, List.mem_cons_of_mem _ hy⟩
  have hmem : ∀ {y}, y ∈ (if reached then w.delivered ++ [x] else w.delivered) →
      y ∈ w.delivered ∨ y = x := by
    intro y hy
    split at hy
    · simpa using hy
    · exact .inl hy
  refine ⟨h.store, fun y hy => h.waiting y (hw y hy), fun y hy => ?_,
    fun y z hy hz => h.level y z (hw y hy) (hw z hz), fun y hy z hz => ?_, ?_⟩
  · rcases hmem hy with hy | rfl
    · exact h.delivered y hy
    · exact h.waiting _ hx
  · rcases hmem hy with hy | rfl
    · exact h.behind y hy z (hw z hz)
    · exact h.level _ z hx (hw z hz)
  · simp only
    split
    · refine List.pairwise_append.mpr ⟨h.ordered, List.pairwise_singleton _ _, ?_⟩
      intro y hy z hz
      rw [List.mem_singleton.mp hz]
      exact h.behind y hy x hx
    · exact h.ordered

/-- **One step keeps the deliveries in order.** -/
lemma World.Ordered.step {w w' : World} {l : Label} (h : w.Ordered plain)
    (hc : w.Clear plain l) (hs : w.step plain l = some w') :
    w'.Ordered plain ∧ w.store.Later w'.store := by
  cases l with
  | enqueue kind key payload =>
    simp only [World.step, Option.ite_none_right_eq_some, Option.some.injEq] at hs
    obtain ⟨hk, rfl⟩ := hs
    obtain ⟨hv, hl⟩ := h.store.enqueue hk key payload
    exact ⟨h.mono hv hl (fun _ hx => hx) rfl, hl⟩
  | enqueueReplacing kind key payload =>
    simp only [World.step, Option.ite_none_left_eq_some, Option.some.injEq] at hs
    obtain ⟨-, rfl⟩ := hs
    obtain ⟨hv, hl⟩ := h.store.enqueueReplacing kind key payload
    exact ⟨h.mono hv hl (fun _ hx => hx) rfl, hl⟩
  | begin i =>
    simp only [World.step] at hs
    split at hs
    · cases hs
      exact ⟨h.begin hc, .refl _⟩
    · cases hs
  | dispatch i reached o =>
    simp only [World.step] at hs
    split at hs
    · rename_i x rest hf
      split at hs
      · cases hs
      · cases hs
        exact ⟨h.dispatch hf reached o, .refl _⟩
    · cases hs
  | mark i =>
    simp only [World.step] at hs
    split at hs
    · rename_i x o rest hf
      cases hs
      obtain ⟨hv, hl⟩ := h.store.mark x.id o
      refine ⟨h.mono hv hl (fun y hy => ?_) rfl, hl⟩
      rcases waiting_setFlush hy with hy | ⟨g, hg, hy⟩
      · exact hy
      · cases hg
        exact ⟨i, _, hf, hy⟩
    · cases hs
  | finish i =>
    simp only [World.step] at hs
    split at hs
    · cases hs
      refine ⟨h.mono h.store (.refl _) (fun y hy => ?_) rfl, .refl _⟩
      rcases waiting_setFlush hy with hy | ⟨g, hg, -⟩
      · exact hy
      · cases hg
    · cases hs
  | abandon i =>
    simp only [World.step, Option.some.injEq] at hs
    subst hs
    refine ⟨h.mono h.store (.refl _) (fun y hy => ?_) rfl, .refl _⟩
    rcases waiting_setFlush hy with hy | ⟨g, hg, -⟩
    · exact hy
    · cases hg

lemma World.Ordered.initial : World.initial.Ordered plain where
  store := .empty plain
  waiting := by rintro x ⟨i, f, hf, -⟩; cases hf
  delivered := by simp [World.initial]
  level := by rintro x y ⟨i, f, hf, -⟩; cases hf
  behind := by simp [World.initial]
  ordered := .nil

/-- What the outbox promises of a world and of one that it leads to: a row for each kind and
key, rows that stay and are final once they have left `pending`, one pending row of a
replacing kind, and deliveries of such a kind in the order of its reports. -/
structure Promise (plain : String → Bool) (w w' : World) : Prop where
  keys : (w.store.rows.map fun r => (r.kind, r.key)).Nodup
  later : w.store.Later w'.store
  onePending : ∀ r ∈ w.store.rows, ∀ r' ∈ w.store.rows, plain r.kind = false →
    r'.kind = r.kind → r.state = .pending → r'.state = .pending → r = r'
  ordered : w.delivered.Pairwise (InOrder plain)

/-- **The outbox keeps its promise** in every run in which no flush lists a newer report
while another one still holds an older report of the kind. -/
theorem outbox_promise {ls ls' : List Label} {w w' : World}
    (hc : Meets (World.step plain) (World.Clear plain) .initial ls)
    (hr : run (World.step plain) .initial ls = some w)
    (hc' : Meets (World.step plain) (World.Clear plain) w ls')
    (hr' : run (World.step plain) w ls' = some w') : Promise plain w w' := by
  have h : w.Ordered plain := run_invariant (fun h hc hs => (h.step hc hs).1) .initial hc hr
  have hl : w.store.Later w'.store := run_rel (P := fun w w' => w.store.Later w'.store)
    (fun _ => .refl _) .trans World.Ordered.step h hc' hr'
  exact ⟨h.store.keys, hl, fun r hr r' hr' hk hkind hp hp' =>
    h.store.one_pending hr hr' hk hkind hp hp', h.ordered⟩

/-- A flush during which a newer snapshot comes in. -/
def sampleLabels : List Label :=
  [.enqueueReplacing "room_snapshot:r" "r-1" "a", .begin 0,
    .enqueueReplacing "room_snapshot:r" "r-2" "b", .dispatch 0 true .sent, .mark 0]

theorem outbox_promise_sample : ∃ w, run (World.step plainKind) .initial sampleLabels = some w ∧
    Promise plainKind w w ∧ w.store.rows.map (·.state) = [.superseded, .pending] := by
  have hs : (run (World.step plainKind) .initial sampleLabels).map
      (fun w => w.store.rows.map (·.state)) = some [.superseded, .pending] := by
    decide +kernel
  obtain ⟨w, hw, hs⟩ := Option.map_eq_some_iff.mp hs
  have hc : Meets (World.step plainKind) (World.Clear plainKind) .initial sampleLabels := by
    refine ⟨trivial, fun v hv => ⟨fun j f hf => ?_, fun _ _ => meets_of_forall ?_⟩⟩
    · cases hv
      cases hf
    · simp [World.Clear]
  have hn : Meets (World.step plainKind) (World.Clear plainKind) w [] := trivial
  exact ⟨w, hw, outbox_promise hc hw hn rfl, hs⟩

/-- A second flush that overlaps the first one delivers the newer snapshot before it. -/
def overlapLabels : List Label :=
  [.enqueueReplacing "room_snapshot:r" "r-1" "a", .begin 0,
    .enqueueReplacing "room_snapshot:r" "r-2" "b", .begin 1, .dispatch 1 true .sent,
    .dispatch 0 true .sent]

theorem not_outbox_promise : ¬ ∀ ls ls' w w',
    run (World.step plainKind) .initial ls = some w →
    run (World.step plainKind) w ls' = some w' → Promise plainKind w w' := by
  intro h
  have hd : (run (World.step plainKind) .initial overlapLabels).map (·.delivered) =
      some [⟨2, "room_snapshot:r", "r-2", "b", .pending, 0, none⟩,
        ⟨1, "room_snapshot:r", "r-1", "a", .pending, 0, none⟩] := by decide +kernel
  obtain ⟨w, hw, hd⟩ := Option.map_eq_some_iff.mp hd
  have ho := (h overlapLabels [] w w hw rfl).ordered
  rw [hd] at ho
  have hle := (List.pairwise_cons.mp ho).1 _ List.mem_cons_self rfl (by decide +kernel)
  exact absurd hle (by decide +kernel)

end MouseKeeper.Desktop.Outbox
