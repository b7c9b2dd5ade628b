import MouseKeeper.Server.Publication

/-!
Every event is published in order.

The steps of the publication are taken apart into small moves of the rows, the work under way
and the log. The queue of works and the flag of the flush play no part in what is shown.
-/

namespace MouseKeeper.Server.Publication

open MouseKeeper.Server.Sync Machine

variable {U : Type} [DecidableEq U]

/-- A part of a step; `c` says whether the conditions on the steps are known to hold. -/
inductive Move (c : Prop) : State U → State U → Prop
  | append {rows r t current log} (start : ℕ) (x : Draft U)
      (h : ∀ r ∈ rows, r.event.payload.id ≠ x.id) :
      Move c ⟨rows, r, t, current, log⟩ ⟨append rows start x, r, t, current, log⟩
  | chain {rows r r' t t' current log} :
      Move c ⟨rows, r, t, current, log⟩ ⟨rows, r', t', current, log⟩
  | read {rows r t log} (w : Work) (found : List (Event U)) (h : found.Perm (w.select rows))
      (sorted : found.Pairwise fun e e' => w.orderBy e e') (hc : c → w.Follows rows) :
      Move c ⟨rows, r, t, none, log⟩ ⟨rows, r, t, some (w.batch found), .read found :: log⟩
  | hand {rows r t f e rest left log} :
      Move c ⟨rows, r, t, some ⟨f, e :: rest, left, false⟩, log⟩
        ⟨rows, r, t, some ⟨f, e :: rest, left, true⟩, .handed e :: log⟩
  | character {rows r t current log} (e : Event U) (kind : CharacterKind) :
      Move c ⟨rows, r, t, current, log⟩ ⟨rows, r, t, current, .character e kind :: log⟩
  | update {rows r t f e rest left log} :
      Move c ⟨rows, r, t, some ⟨f, e :: rest, left, true⟩, log⟩
        ⟨publishedAt rows e.payload.id, r, t, some ⟨f, rest, left, false⟩, log⟩
  | fail {rows r t b log} (e : Event U)
      (hc : c → ∀ e' ∈ b.rest ++ b.left, e'.user = e.user) :
      Move c ⟨rows, r, t, some b, log⟩ ⟨rows, r, t, none, .failed e :: log⟩
  | broke {rows r t current log} :
      Move c ⟨rows, r, t, current, log⟩ ⟨rows, r, t, none, .broke :: log⟩
  | flushed {rows r t left handed log} :
      Move c ⟨rows, r, t, some ⟨true, [], left, handed⟩, log⟩ ⟨rows, r, t, none, .flushed :: log⟩
  | ended {rows r t left handed log} :
      Move c ⟨rows, r, t, some ⟨false, [], left, handed⟩, log⟩ ⟨rows, r, t, none, log⟩

abbrev Moves (c : Prop) : State U → State U → Prop := Relation.ReflTransGen (Move c)

variable {c : Prop} {s s' : State U} {l : Label U}

/-! ### Steps as moves -/

lemma Move.one (h : Move c s s') : Moves c s s' := .single h

lemma moves_fail {rows r t b log} (e : Event U)
    (hc : c → ∀ e' ∈ b.rest ++ b.left, e'.user = e.user) :
    Moves c ⟨rows, r, t, some b, log⟩ (State.fail ⟨rows, r, t, some b, log⟩ b e) :=
  .head (.fail e hc) (.single .chain)

lemma moves_commit (start : ℕ) {rows r t current log} {drafts : List (Draft U)}
    (h : Fresh rows drafts) :
    Moves c ⟨rows, r, t, current, log⟩
      ⟨drafts.foldl (append · start) rows, r, t, current, log⟩ := by
  induction drafts generalizing rows with
  | nil => exact .refl
  | cons x drafts ih =>
    obtain ⟨hn, hf⟩ := h
    obtain ⟨hx, hn⟩ := List.nodup_cons.mp hn
    refine .head (.append start x fun r hr => hf x List.mem_cons_self r hr) (ih ⟨hn, ?_⟩)
    intro y hy r hr
    rcases List.mem_append.mp hr with hr | hr
    · exact hf y (List.mem_cons_of_mem _ hy) r hr
    · rw [List.mem_singleton.mp hr]
      exact fun heq => hx (List.mem_map.mpr ⟨y, hy, Eq.symm heq⟩)

lemma moves_hand {rows r t f rest left log} (e : Event U) (status : Option String) :
    Moves c ⟨rows, r, t, some ⟨f, e :: rest, left, false⟩, log⟩
      (State.hand ⟨rows, r, t, some ⟨f, e :: rest, left, false⟩, log⟩
        ⟨f, e :: rest, left, false⟩ e status) := by
  have h : Moves c ⟨rows, r, t, some ⟨f, e :: rest, left, false⟩, log⟩
      ⟨rows, r, t, some ⟨f, e :: rest, left, true⟩, .handed e :: log⟩ := .single .hand
  rw [State.hand, characterEvent]
  split
  · exact h.tail (.character e _)
  · exact h

omit [DecidableEq U] in
lemma alone_of {e : Event U} {rest left : List (Event U)}
    (h : ∀ e' ∈ rest ++ left, e'.user = e.user) :
    ∀ e' ∈ e :: rest ++ left, e'.user = e.user := by
  intro e' he'
  rcases List.mem_cons.mp he' with rfl | he'
  · rfl
  · exact h e' he'

lemma moves_publish {rows r t f e rest left log} {thrown : Thrown}
    (hc : c → State.Orderly (U := U) ⟨rows, r, t, some ⟨f, e :: rest, left, false⟩, log⟩
      (.publish thrown)) :
    Moves c ⟨rows, r, t, some ⟨f, e :: rest, left, false⟩, log⟩
      (State.publish ⟨rows, r, t, some ⟨f, e :: rest, left, false⟩, log⟩
        ⟨f, e :: rest, left, false⟩ e thrown) := by
  rw [State.publish]
  split
  · next h => exact moves_fail e fun h' => alone_of (hc h' (.inl h))
  · cases thrown with
    | nothing => exact moves_hand e _
    | event => exact moves_fail e fun h' => alone_of (hc h' (.inr (by decide)))
    | character =>
      refine .head .hand (.head (.fail e fun h' => ?_) (.single .chain))
      exact alone_of (hc h' (.inr (by decide)))

lemma moves_mark {rows r t f e rest left log} {outcome : Mark}
    (hc : c → State.Orderly (U := U) ⟨rows, r, t, some ⟨f, e :: rest, left, true⟩, log⟩
      (.mark outcome)) :
    Moves c ⟨rows, r, t, some ⟨f, e :: rest, left, true⟩, log⟩
      (State.mark ⟨rows, r, t, some ⟨f, e :: rest, left, true⟩, log⟩
        ⟨f, e :: rest, left, true⟩ e rest outcome) := by
  cases outcome with
  | done => exact .single .update
  | lost applied =>
    have hall : c → ∀ e' ∈ e :: rest ++ left, e'.user = e.user := fun h' => alone_of (hc h')
    cases applied with
    | false => exact moves_fail e hall
    | true =>
      refine .head .update (.head (.fail e fun h' e' he' => ?_) (.single .chain))
      exact hall h' e' (List.mem_cons_of_mem _ he')

lemma moves_crash {rows r t current log} (applied : Bool) :
    Moves c ⟨rows, r, t, current, log⟩
      ⟨State.crashed (U := U) ⟨rows, r, t, current, log⟩ applied, false, [], none,
        .broke :: log⟩ := by
  rw [State.crashed]
  split
  · next f e rest left heq =>
    cases heq
    cases applied with
    | false => exact .head .broke (.single .chain)
    | true => exact .head .update (.head .broke (.single .chain))
  · exact .head .broke (.single .chain)

theorem step_moves (hs : s.step l = some s') (hc : c → s.Orderly l) : Moves c s s' := by
  obtain ⟨rows, r, t, current, log⟩ := s
  cases l with
  | commit start drafts =>
    simp only [State.step] at hs
    split_ifs at hs with h
    cases hs
    exact moves_commit start h
  | flush isReady =>
    simp only [State.step] at hs
    split_ifs at hs
    · cases hs
      exact .refl
    · cases hs
      exact .single .chain
  | publishNow eventIds isReady =>
    simp only [State.step] at hs
    split_ifs at hs
    · cases hs
      exact .refl
    · cases hs
      exact .single .chain
  | read rowsFound =>
    simp only [State.step] at hs
    split at hs
    · next w tail =>
      split_ifs at hs with h
      cases hs
      exact .head (.read w _ h.1 h.2 fun h' => hc h' w rfl) (.single .chain)
    · cases hs
  | readFailed =>
    simp only [State.step] at hs
    split at hs
    · cases hs
      exact .head .broke (.single .chain)
    · cases hs
  | publish thrown =>
    simp only [State.step] at hs
    split at hs
    · cases hs
      exact moves_publish hc
    · cases hs
  | mark outcome =>
    simp only [State.step] at hs
    split at hs
    · cases hs
      exact moves_mark hc
    · cases hs
  | finish =>
    simp only [State.step] at hs
    split at hs
    · cases hs
      exact .head .flushed (.single .chain)
    · cases hs
      exact .single .ended
    · cases hs
  | crash applied =>
    cases hs
    exact moves_crash applied

theorem run_moves {ls : List (Label U)} (hr : run State.step s ls = some s')
    (hc : c → Meets State.step State.Orderly s ls) : Moves c s s' := by
  induction ls generalizing s with
  | nil =>
    cases hr
    exact .refl
  | cons l ls ih =>
    obtain ⟨t, ht, hr⟩ := Option.bind_eq_some_iff.mp hr
    exact (step_moves ht fun h => (hc h).1).trans (ih hr fun h => (hc h).2 t ht)

/-! ### The rows -/

section Rows

variable {rows : List (Row U)} {e e' : Event U} {id : ℕ}

omit [DecidableEq U] in
lemma mem_unpublished : e ∈ unpublished rows ↔ ⟨e, false⟩ ∈ rows := by
  simp only [unpublished, List.mem_map, List.mem_filter]
  constructor
  · rintro ⟨⟨e, b⟩, ⟨hr, hb⟩, rfl⟩
    cases b
    · exact hr
    · cases hb
  · exact fun h => ⟨_, ⟨h, rfl⟩, rfl⟩

omit [DecidableEq U] in
lemma events_of_unpublished (h : e ∈ unpublished rows) : e ∈ rows.map (·.event) :=
  List.mem_map.mpr ⟨_, mem_unpublished.mp h, rfl⟩

omit [DecidableEq U] in
lemma events_publishedAt (rows : List (Row U)) (id : ℕ) :
    (publishedAt rows id).map (·.event) = rows.map (·.event) := by
  rw [publishedAt, List.map_map]
  refine List.map_congr_left fun r _ => ?_
  simp only [Function.comp_apply]
  split_ifs <;> rfl

omit [DecidableEq U] in
lemma mem_unpublished_publishedAt :
    e ∈ unpublished (publishedAt rows id) ↔ e ∈ unpublished rows ∧ e.payload.id ≠ id := by
  rw [mem_unpublished, mem_unpublished, publishedAt, List.mem_map]
  constructor
  · rintro ⟨r, hr, heq⟩
    split_ifs at heq with hid
    · cases heq
    · subst heq
      exact ⟨hr, hid⟩
  · rintro ⟨hr, hid⟩
    exact ⟨_, hr, if_neg hid⟩

/-- A draft becomes the last row, with a number above those of its user. -/
lemma mem_append {start : ℕ} {x : Draft U} (h : e ∈ unpublished (append rows start x)) :
    e ∈ unpublished rows ∨
      e.user = x.user ∧ e.sequence = latest (rows.map (·.event)) x.user + 1 := by
  rcases List.mem_append.mp (mem_unpublished.mp h) with hr | hr
  · exact .inl (mem_unpublished.mpr hr)
  · cases List.mem_singleton.mp hr
    exact .inr ⟨rfl, rfl⟩

lemma unpublished_append {start : ℕ} {x : Draft U} (h : e ∈ unpublished rows) :
    e ∈ unpublished (append rows start x) :=
  mem_unpublished.mpr (List.mem_append_left _ (mem_unpublished.mp h))

lemma events_append (rows : List (Row U)) (start : ℕ) (x : Draft U) :
    (append rows start x).map (·.event) = rows.map (·.event) ++
      [⟨x.user, latest (rows.map (·.event)) x.user + 1,
        ⟨x.id, x.eventType, start, x.payload⟩⟩] := by
  rw [append, List.map_append]
  rfl

lemma sequence_le_latest (hn : Numbered (rows.map (·.event))) (h : e ∈ rows.map (·.event)) :
    e.sequence ≤ latest (rows.map (·.event)) e.user := by
  have hm : e.sequence ∈ sequences (rows.map (·.event)) e.user :=
    List.mem_map_of_mem (List.mem_filter.mpr ⟨h, by simp⟩)
  rw [hn e.user] at hm
  have hle := List.mem_range'.mp hm
  rw [latest_eq hn]
  omega

omit [DecidableEq U] in
/-- Ids are those of one event. -/
lemma eq_of_id (hid : ((rows.map (·.event)).map (·.payload.id)).Nodup)
    (h : e ∈ rows.map (·.event)) (h' : e' ∈ rows.map (·.event))
    (heq : e.payload.id = e'.payload.id) : e = e' :=
  List.inj_on_of_nodup_map hid h h' heq

end Rows

/-! ### What holds whatever happens -/

/-- What the work under way still has to publish: rows that are unpublished, the first of them
handed out if it waits for its mark. -/
structure Batch.Waits (b : Batch U) (rows : List (Row U)) (log : List (Entry U)) : Prop where
  unpublished : ∀ e ∈ b.rest, e ∈ unpublished rows
  nodup : b.rest.Nodup
  handed : b.handed = true → ∀ e ∈ b.rest.head?, e ∈ handedOut log

structure Base (s : State U) : Prop where
  numbered : Numbered (s.rows.map (·.event))
  ids : ((s.rows.map (·.event)).map (·.payload.id)).Nodup
  delivered : ∀ r ∈ s.rows, r.published = true → r.event ∈ handedOut s.log
  stored : ∀ e ∈ handedOut s.log, e ∈ s.rows.map (·.event)
  waits : ∀ b ∈ s.current, b.Waits s.rows s.log

omit [DecidableEq U] in
lemma select_unpublished {rows : List (Row U)} {w : Work} {e : Event U}
    (h : e ∈ w.select rows) : e ∈ unpublished rows := by
  cases w with
  | flush => exact h
  | now eventIds => exact (List.mem_filter.mp h).1

omit [DecidableEq U] in
lemma batch_sublist (w : Work) (l : List (Event U)) : (w.batch l).rest.Sublist l := by
  cases w with
  | flush => exact List.take_sublist _ _
  | now eventIds => exact .refl _

lemma Base.nodup_select (h : Base s) (w : Work) : (w.select s.rows).Nodup := by
  have hu : (unpublished s.rows).Nodup := h.ids.of_map.sublist (List.filter_sublist.map _)
  cases w with
  | flush => exact hu
  | now eventIds => exact hu.filter _

theorem Base.move (h : Base s) (hm : Move c s s') : Base s' := by
  obtain ⟨hn, hid, hd, hst, hw⟩ := h
  cases hm with
  | append start x hx =>
    refine ⟨?_, ?_, fun r hr hp => ?_, fun e he => ?_, fun b hb => ?_⟩
    · rw [events_append]
      exact hn.snoc _ _
    · rw [events_append, List.map_append]
      refine List.nodup_append.mpr ⟨hid, List.nodup_singleton _, fun i hi j hj => ?_⟩
      obtain ⟨e, he, rfl⟩ := List.mem_map.mp hi
      obtain ⟨r, hr, rfl⟩ := List.mem_map.mp he
      rw [List.mem_singleton.mp hj]
      exact hx r hr
    · rcases List.mem_append.mp hr with hr | hr
      · exact hd r hr hp
      · rw [List.mem_singleton.mp hr] at hp
        cases hp
    · rw [events_append]
      exact List.mem_append_left _ (hst e he)
    · obtain ⟨hu, hnd, hh⟩ := hw b hb
      exact ⟨fun e he => unpublished_append (hu e he), hnd, hh⟩
  | chain => exact ⟨hn, hid, hd, hst, hw⟩
  | read w found hp sorted hc =>
    refine ⟨hn, hid, hd, hst, fun b hb => ?_⟩
    cases hb
    have hbase : Base _ := ⟨hn, hid, hd, hst, hw⟩
    refine ⟨fun e he => ?_, ?_, fun hh => ?_⟩
    · exact select_unpublished (hp.mem_iff.mp ((batch_sublist w found).subset he))
    · exact (hp.nodup_iff.mpr (hbase.nodup_select w)).sublist (batch_sublist w found)
    · cases w <;> cases hh
  | hand =>
    obtain ⟨hu, hnd, -⟩ := hw _ rfl
    refine ⟨hn, hid, fun r hr hp => List.mem_cons_of_mem _ (hd r hr hp), fun e he => ?_,
      fun b hb => ?_⟩
    · rcases List.mem_cons.mp he with rfl | he
      · exact events_of_unpublished (hu _ List.mem_cons_self)
      · exact hst e he
    · cases hb
      refine ⟨hu, hnd, fun _ e he => ?_⟩
      cases he
      exact List.mem_cons_self
  | character e kind =>
    refine ⟨hn, hid, hd, hst, fun b hb => ?_⟩
    obtain ⟨hu, hnd, hh⟩ := hw b hb
    exact ⟨hu, hnd, hh⟩
  | @update _ _ _ _ e =>
    obtain ⟨hu, hnd, hh⟩ := hw _ rfl
    have hin := events_of_unpublished (hu e List.mem_cons_self)
    refine ⟨?_, ?_, fun r hr hp => ?_, fun e' he' => ?_, fun b hb => ?_⟩
    · rw [events_publishedAt]
      exact hn
    · rw [events_publishedAt]
      exact hid
    · obtain ⟨r', hr', rfl⟩ := List.mem_map.mp hr
      split_ifs with hre
      · have heq := eq_of_id hid (List.mem_map_of_mem hr') hin hre
        exact heq ▸ hh rfl e rfl
      · rw [if_neg hre] at hp
        exact hd r' hr' hp
    · rw [events_publishedAt]
      exact hst e' he'
    · cases hb
      obtain ⟨hne, hnd⟩ := List.nodup_cons.mp hnd
      refine ⟨fun e' he' => mem_unpublished_publishedAt.mpr
        ⟨hu e' (List.mem_cons_of_mem _ he'), fun heq => ?_⟩, hnd, fun h' => by cases h'⟩
      have := eq_of_id hid (events_of_unpublished (hu e' (List.mem_cons_of_mem _ he'))) hin heq
      exact hne (this ▸ he')
  | fail e hc => exact ⟨hn, hid, hd, hst, fun _ hb => by cases hb⟩
  | broke => exact ⟨hn, hid, hd, hst, fun _ hb => by cases hb⟩
  | flushed => exact ⟨hn, hid, hd, hst, fun _ hb => by cases hb⟩
  | ended => exact ⟨hn, hid, hd, hst, fun _ hb => by cases hb⟩

lemma Base.initial : Base (.initial : State U) :=
  ⟨.nil, List.nodup_nil, nofun, nofun, nofun⟩

lemma Base.moves (h : Base s) (hm : Moves c s s') : Base s' := by
  induction hm with
  | refl => exact h
  | tail _ hm ih => exact ih.move hm

/-! ### The order of a user's events -/

/-- The work takes the events of a user by their numbers and leaves out none before one that it
takes; what it has found is handed out, still to come or cut off. -/
structure Batch.Ordered (b : Batch U) (rows : List (Row U)) (log : List (Entry U)) : Prop where
  increasing : b.rest.Pairwise fun e e' => e.user = e'.user → e.sequence < e'.sequence
  down : ∀ e ∈ b.rest, ∀ e' ∈ Publication.unpublished rows, e'.user = e.user →
    e'.sequence < e.sequence → e' ∈ b.rest
  cover : ∀ e ∈ found log, e ∈ served log ∨ e ∈ b.rest ++ b.left
  handed : b.handed = true → ∀ e ∈ b.rest.head?, e ∈ served log

omit [DecidableEq U] in
lemma since_handedOut {log : List (Entry U)} {e : Event U} (h : e ∈ since log) :
    e ∈ handedOut log := by
  induction log with
  | nil => cases h
  | cons x log ih =>
    cases x with
    | handed e' =>
      rcases List.mem_cons.mp h with rfl | h
      · exact List.mem_cons_self
      · exact List.mem_cons_of_mem _ (ih h)
    | read | character | flushed => exact ih h
    | failed | broke => cases h

structure Kept (s : State U) : Prop where
  order : InOrder s.log
  once : (since s.log).Nodup
  isolated : Isolated s.log
  behind : ∀ e ∈ unpublished s.rows, ∀ e' ∈ handedOut s.log, e'.user = e.user →
    e'.sequence ≤ e.sequence
  again : ∀ e ∈ unpublished s.rows, e ∈ since s.log →
    ∃ b ∈ s.current, b.handed = true ∧ e ∈ b.rest.head?
  ordered : ∀ b ∈ s.current, b.Ordered s.rows s.log

omit [DecidableEq U] in
lemma Isolated.cons {log : List (Entry U)} {x : Entry U} (h : Isolated log)
    (hx : ∀ e, x = .failed e → ∀ e' ∈ found log, e'.user ≠ e.user → e' ∈ served log) :
    Isolated (x :: log) := by
  intro newer e older heq
  cases newer with
  | nil =>
    obtain ⟨rfl, rfl⟩ := List.cons.inj heq
    exact hx e rfl
  | cons y newer => exact h newer e older (List.cons.inj heq).2

omit [DecidableEq U] in
/-- What is read in the order of the numbers. -/
lemma Work.ordered {rows : List (Row U)} {w : Work} {l : List (Event U)}
    (hp : l.Perm (w.select rows)) (sorted : l.Pairwise fun e e' => w.orderBy e e')
    (hnd : l.Nodup) (hn : ∀ e ∈ unpublished rows, ∀ e' ∈ unpublished rows, e.user = e'.user →
      e.sequence = e'.sequence → e = e') (hw : w.Follows rows) :
    ((w.batch l).rest.Pairwise fun e e' => e.user = e'.user → e.sequence < e'.sequence) ∧
      ∀ e ∈ (w.batch l).rest, ∀ e' ∈ unpublished rows, e'.user = e.user →
        e'.sequence < e.sequence → e' ∈ (w.batch l).rest := by
  have hmem : ∀ e ∈ l, e ∈ unpublished rows := fun e he =>
    select_unpublished (hp.mem_iff.mp he)
  constructor
  · refine List.Pairwise.sublist (batch_sublist w l) ?_
    refine (sorted.and hnd).imp_of_mem fun {e e'} he he' h hu => ?_
    -- Another order of the numbers would be the order of the times too.
    by_contra hlt
    rcases Nat.lt_or_eq_of_le (Nat.le_of_not_lt hlt) with hlt | heq
    · cases w with
      | flush =>
        have := hw e' (hmem e' he') e (hmem e he) hu.symm hlt
        exact absurd h.1 (Nat.not_le_of_lt this)
      | now eventIds => exact absurd h.1 (Nat.not_le_of_lt hlt)
    · exact h.2 (hn e (hmem e he) e' (hmem e' he') hu heq.symm)
  · intro e he e' he' hu hlt
    have hl := (batch_sublist w l).subset he
    cases w with
    | now eventIds =>
      have hid := (List.mem_filter.mp (hp.mem_iff.mp hl)).2
      refine hp.mem_iff.mpr (List.mem_filter.mpr ⟨he', ?_⟩)
      exact decide_eq_true (hw e' he' e (hmem e hl) hu hlt (of_decide_eq_true hid))
    | flush =>
      -- It comes before an event that is not cut off.
      have hocc := hw e' he' e (hmem e hl) hu hlt
      have hin : e' ∈ l := hp.mem_iff.mpr he'
      rw [← List.take_append_drop limit l] at hin sorted
      rcases List.mem_append.mp hin with h | h
      · exact h
      · have := (List.pairwise_append.mp sorted).2.2 e he e' h
        exact absurd this (Nat.not_le_of_lt hocc)

omit [DecidableEq U] in
lemma batch_cover (w : Work) (l : List (Event U)) :
    (w.batch l).rest ++ (w.batch l).left = l := by
  cases w with
  | flush => exact List.take_append_drop _ _
  | now eventIds => exact List.append_nil _

lemma eq_of_sequence {rows : List (Row U)} (hn : Numbered (rows.map (·.event)))
    {e e' : Event U} (he : e ∈ rows.map (·.event)) (he' : e' ∈ rows.map (·.event))
    (hu : e.user = e'.user) (hs : e.sequence = e'.sequence) : e = e' := by
  have hnd : (sequences (rows.map (·.event)) e.user).Nodup := by
    rw [hn e.user]
    exact List.nodup_range'
  refine List.inj_on_of_nodup_map hnd ?_ ?_ hs
  · exact List.mem_filter.mpr ⟨he, by simp⟩
  · exact List.mem_filter.mpr ⟨he', by simp [hu]⟩

omit [DecidableEq U] in
/-- The first event of the work is the next one of its user. -/
lemma Batch.Ordered.next {rows : List (Row U)} {log : List (Entry U)} {f handed : Bool}
    {e : Event U} {rest left : List (Event U)}
    (h : Batch.Ordered ⟨f, e :: rest, left, handed⟩ rows log) :
    ∀ e' ∈ unpublished rows, e'.user = e.user → e.sequence ≤ e'.sequence := by
  intro e' he' hu
  by_contra hlt
  have hlt := Nat.lt_of_not_le hlt
  have hin : e' ∈ e :: rest := h.down e List.mem_cons_self e' he' hu hlt
  rcases List.mem_cons.mp hin with rfl | hin
  · exact absurd hlt (Nat.lt_irrefl _)
  · have := (List.pairwise_cons.mp h.increasing).1 e' hin hu.symm
    omega

theorem Kept.move (h : Kept s) (hb : Base s) (hm : Move True s s') : Kept s' := by
  obtain ⟨ho, hon, hi, hbe, ha, hor⟩ := h
  cases hm with
  | @append rows _ _ _ _ start x hx =>
    -- The new number is above all that are stored.
    have hnew : ∀ e : Event U, e.user = x.user →
        e.sequence = latest (rows.map (·.event)) x.user + 1 →
        ∀ e' ∈ rows.map (·.event), e'.user = e.user → e'.sequence < e.sequence := by
      intro e hu hs e' he' hu'
      have hle := sequence_le_latest hb.numbered he'
      rw [hu', hu] at hle
      exact hs ▸ Nat.lt_succ_of_le hle
    refine ⟨ho, hon, hi, fun e he e' he' hu => ?_, fun e he hs => ?_, fun b hbc => ?_⟩
    · rcases mem_append he with he | ⟨hx, hs⟩
      · exact hbe e he e' he' hu
      · exact Nat.le_of_lt (hnew e hx hs e' (hb.stored e' he') hu)
    · rcases mem_append he with he | ⟨hx, hs'⟩
      · exact ha e he hs
      · have hin := hb.stored e (since_handedOut hs)
        exact absurd (hnew e hx hs' e hin rfl) (Nat.lt_irrefl _)
    · obtain ⟨hinc, hdown, hcov, hh⟩ := hor b hbc
      refine ⟨hinc, fun e he e' he' hu hlt => ?_, hcov, hh⟩
      rcases mem_append he' with he' | ⟨hx, hs'⟩
      · exact hdown e he e' he' hu hlt
      · have hin := events_of_unpublished ((hb.waits b hbc).unpublished e he)
        exact absurd (hnew e' hx hs' e hin hu.symm) (Nat.not_lt_of_lt hlt)
  | chain => exact ⟨ho, hon, hi, hbe, ha, hor⟩
  | @read rows _ _ _ w l hp sorted hc =>
    have hnd : l.Nodup := hp.nodup_iff.mpr (hb.nodup_select w)
    have hord := Work.ordered hp sorted hnd (fun e he e' he' => eq_of_sequence hb.numbered
      (events_of_unpublished he) (events_of_unpublished he')) (hc trivial)
    refine ⟨ho, hon, hi.cons nofun, hbe, fun e he hs => ?_, fun b hbc => ?_⟩
    · obtain ⟨b, hbc, -⟩ := ha e he hs
      cases hbc
    · cases hbc
      refine ⟨hord.1, hord.2, fun e he => .inr ?_, fun hh => ?_⟩
      · rw [batch_cover]
        exact he
      · cases w <;> cases hh
  | @hand rows _ _ f e rest left log =>
    have hord := hor _ rfl
    have hu := (hb.waits _ rfl).unpublished e List.mem_cons_self
    refine ⟨?_, ?_, hi.cons nofun, fun e' he' e'' he'' huser => ?_, fun e' he' hs => ?_,
      fun b hbc => ?_⟩
    · exact List.pairwise_cons.mpr ⟨fun e' he' huser => hbe e hu e' he' huser.symm, ho⟩
    · refine List.nodup_cons.mpr ⟨fun hs => ?_, hon⟩
      obtain ⟨b, hbc, hh, -⟩ := ha e hu hs
      cases hbc
      cases hh
    · rcases List.mem_cons.mp he'' with rfl | he''
      · exact hord.next e' he' huser.symm
      · exact hbe e' he' e'' he'' huser
    · rcases List.mem_cons.mp hs with rfl | hs
      · exact ⟨_, rfl, rfl, rfl⟩
      · obtain ⟨b, hbc, hh, -⟩ := ha e' he' hs
        cases hbc
        cases hh
    · cases hbc
      refine ⟨hord.increasing, hord.down, fun e' he' => ?_, fun _ e' he' => ?_⟩
      · exact (hord.cover e' he').imp_left (List.mem_cons_of_mem _)
      · cases he'
        exact List.mem_cons_self
  | character e kind =>
    refine ⟨ho, hon, hi.cons nofun, hbe, ha, fun b hbc => ?_⟩
    obtain ⟨hinc, hdown, hcov, hh⟩ := hor b hbc
    exact ⟨hinc, hdown, hcov, hh⟩
  | @update rows _ _ f e rest left log =>
    obtain ⟨hinc, hdown, hcov, hh⟩ := hor _ rfl
    refine ⟨ho, hon, hi, fun e' he' => hbe e' (mem_unpublished_publishedAt.mp he').1,
      fun e' he' hs => ?_, fun b hbc => ?_⟩
    · -- It is the event that has just been marked.
      obtain ⟨he', hne⟩ := mem_unpublished_publishedAt.mp he'
      obtain ⟨b, hbc, -, hhead⟩ := ha e' he' hs
      cases hbc
      cases hhead
      exact absurd rfl hne
    · cases hbc
      refine ⟨(List.pairwise_cons.mp hinc).2, fun e' he' e'' he'' huser hlt => ?_,
        fun e' he' => ?_, nofun⟩
      · obtain ⟨he'', hne⟩ := mem_unpublished_publishedAt.mp he''
        have hin := hdown e' (List.mem_cons_of_mem _ he') e'' he'' huser hlt
        exact (List.mem_cons.mp hin).resolve_left fun heq => hne (heq ▸ rfl)
      · rcases hcov e' he' with h | h
        · exact .inl h
        · rcases List.mem_cons.mp h with rfl | h
          · exact .inl (hh rfl _ rfl)
          · exact .inr h
  | fail e hc =>
    obtain ⟨-, -, hcov, -⟩ := hor _ rfl
    refine ⟨ho, List.nodup_nil, hi.cons fun e' heq e'' he'' hne => ?_, hbe, nofun, nofun⟩
    cases heq
    exact (hcov e'' he'').resolve_right fun h => hne (hc trivial e'' h)
  | broke => exact ⟨ho, List.nodup_nil, hi.cons nofun, hbe, nofun, nofun⟩
  | flushed =>
    refine ⟨ho, hon, hi.cons nofun, hbe, fun e he hs => ?_, nofun⟩
    obtain ⟨b, hbc, -, hhead⟩ := ha e he hs
    cases hbc
    cases hhead
  | ended =>
    refine ⟨ho, hon, hi, hbe, fun e he hs => ?_, nofun⟩
    obtain ⟨b, hbc, -, hhead⟩ := ha e he hs
    cases hbc
    cases hhead

omit [DecidableEq U] in
lemma Kept.initial : Kept (.initial : State U) :=
  ⟨.nil, List.nodup_nil, fun newer _ _ h => absurd (congrArg List.length h) (by simp [State.initial]),
    nofun, nofun, nofun⟩

lemma Kept.moves (h : Kept s) (hb : Base s) (hm : Moves True s s') : Kept s' ∧ Base s' := by
  induction hm with
  | refl => exact ⟨h, hb⟩
  | tail _ hm ih => exact ⟨ih.1.move ih.2 hm, ih.2.move hm⟩

/-! ### Every event is reached -/

/-- The published rows that come no later than the event. -/
def publishedUpTo (e : Event U) (rows : List (Row U)) : ℕ :=
  (upTo e rows).countP (·.published)

/-- Where an event stands that was stored when `start` flushes had ended: it is published, or
each flush since the next one has published as many rows as it could take. -/
structure Nearer (e : Event U) (start : ℕ) (s : State U) : Prop where
  stored : e ∈ s.rows.map (·.event)
  enough : e ∈ unpublished s.rows →
    limit * (flushes s.log - start - 1) ≤ publishedUpTo e s.rows
  batch : ∀ b ∈ s.current, b.flush = true → start < flushes s.log → e ∈ unpublished s.rows →
    e ∈ b.rest ∨ (∀ e' ∈ b.rest, e'.payload.occurredAt ≤ e.payload.occurredAt) ∧
      limit * (flushes s.log - start) ≤ publishedUpTo e s.rows + b.rest.length

lemma publishedUpTo_append (e : Event U) (rows : List (Row U)) (start : ℕ) (x : Draft U) :
    publishedUpTo e (append rows start x) = publishedUpTo e rows := by
  rw [publishedUpTo, publishedUpTo, append, upTo, List.filter_append, List.countP_append, upTo,
    Nat.add_eq_left, List.countP_eq_zero]
  intro r hr
  rw [List.mem_singleton.mp (List.mem_filter.mp hr).1]
  exact Bool.false_ne_true

omit [DecidableEq U] in
lemma publishedUpTo_cons (e : Event U) (r : Row U) (rows : List (Row U)) :
    publishedUpTo e (r :: rows) = publishedUpTo e rows +
      if r.event.payload.occurredAt ≤ e.payload.occurredAt ∧ r.published = true then 1 else 0 := by
  rw [publishedUpTo, publishedUpTo, upTo, upTo, List.filter_cons]
  by_cases h : r.event.payload.occurredAt ≤ e.payload.occurredAt
  · simp [h, List.countP_cons]
  · simp [h]

omit [DecidableEq U] in
lemma publishedUpTo_mono (e : Event U) (rows : List (Row U)) (id : ℕ) :
    publishedUpTo e rows ≤ publishedUpTo e (publishedAt rows id) := by
  induction rows with
  | nil => exact Nat.le_refl _
  | cons r rows ih =>
    have hc : publishedAt (r :: rows) id =
        (if r.event.payload.id = id then { r with published := true } else r) ::
          publishedAt rows id := rfl
    rw [hc, publishedUpTo_cons, publishedUpTo_cons]
    split_ifs <;> simp_all
    omega

omit [DecidableEq U] in
/-- A mark counts for every later event. -/
lemma publishedUpTo_succ {e e' : Event U} {rows : List (Row U)} (h : e' ∈ unpublished rows)
    (hle : e'.payload.occurredAt ≤ e.payload.occurredAt) :
    publishedUpTo e rows + 1 ≤ publishedUpTo e (publishedAt rows e'.payload.id) := by
  induction rows with
  | nil => cases h
  | cons r rows ih =>
    have hc : publishedAt (r :: rows) e'.payload.id =
        (if r.event.payload.id = e'.payload.id then { r with published := true } else r) ::
          publishedAt rows e'.payload.id := rfl
    have hmono := publishedUpTo_mono e rows e'.payload.id
    rw [hc, publishedUpTo_cons, publishedUpTo_cons]
    rcases List.mem_cons.mp (mem_unpublished.mp h) with rfl | h
    · simp [hle]
      omega
    · have := ih (mem_unpublished.mpr h)
      split_ifs <;> simp_all

/-- An event that is stored is not the one appended. -/
lemma unpublished_of_append {rows : List (Row U)} {e : Event U} {start : ℕ} {x : Draft U}
    (hn : Numbered (rows.map (·.event))) (he : e ∈ rows.map (·.event))
    (h : e ∈ unpublished (append rows start x)) : e ∈ unpublished rows := by
  rcases mem_append h with h | ⟨hu, hs⟩
  · exact h
  · have hle := sequence_le_latest hn he
    rw [hs, hu] at hle
    exact absurd hle (Nat.not_succ_le_self _)

lemma full_flush {start n p : ℕ} (hlt : start < n) (h : limit * (n - start - 1) ≤ p) :
    limit * (n - start) ≤ p + limit := by
  obtain ⟨k, rfl⟩ := Nat.exists_eq_add_of_lt hlt
  rw [show start + k + 1 - start = k + 1 by omega, Nat.mul_succ]
  rw [show start + k + 1 - start - 1 = k by omega] at h
  exact Nat.add_le_add_right h limit

theorem Nearer.move {e : Event U} {start : ℕ} (h : Nearer e start s) (hb : Base s)
    (hm : Move c s s') : Nearer e start s' := by
  obtain ⟨hst, hen, hba⟩ := h
  cases hm with
  | append t x hx =>
    refine ⟨?_, fun he => ?_, fun b hbc hf hlt he => ?_⟩
    · rw [events_append]
      exact List.mem_append_left _ hst
    · rw [publishedUpTo_append]
      exact hen (unpublished_of_append hb.numbered hst he)
    · rw [publishedUpTo_append]
      exact hba b hbc hf hlt (unpublished_of_append hb.numbered hst he)
  | chain => exact ⟨hst, hen, hba⟩
  | read w l hp sorted hc =>
    refine ⟨hst, hen, fun b hbc hf hlt he => ?_⟩
    cases hbc
    cases w with
    | now eventIds => cases hf
    | flush =>
      have hin : e ∈ l := hp.mem_iff.mpr he
      rw [← List.take_append_drop limit l] at hin sorted
      rcases List.mem_append.mp hin with hin | hin
      · exact .inl hin
      · -- It is cut off, so the flush is full and all of it comes before.
        refine .inr ⟨fun e' he' => (List.pairwise_append.mp sorted).2.2 e' he' e hin, ?_⟩
        have hlen : (l.take limit).length = limit := by
          have := List.length_pos_of_mem hin
          rw [List.length_drop] at this
          rw [List.length_take]
          omega
        exact (full_flush hlt (hen he)).trans_eq (congrArg _ hlen.symm)
  | hand =>
    refine ⟨hst, hen, fun b hbc hf hlt he => ?_⟩
    cases hbc
    exact hba ⟨_, _, _, false⟩ rfl hf hlt he
  | character e' kind => exact ⟨hst, hen, hba⟩
  | @update rows _ _ f e' rest left log =>
    refine ⟨?_, fun he => ?_, fun b hbc hf hlt he => ?_⟩
    · rw [events_publishedAt]
      exact hst
    · have := hen (mem_unpublished_publishedAt.mp he).1
      exact this.trans (publishedUpTo_mono e rows e'.payload.id)
    · cases hbc
      obtain ⟨he, hne⟩ := mem_unpublished_publishedAt.mp he
      rcases hba _ rfl hf hlt he with hin | ⟨hall, hle⟩
      · exact .inl ((List.mem_cons.mp hin).resolve_left fun heq => hne (heq ▸ rfl))
      · refine .inr ⟨fun e'' he'' => hall e'' (List.mem_cons_of_mem _ he''), ?_⟩
        have hun := (hb.waits _ rfl).unpublished e' List.mem_cons_self
        have hmore := publishedUpTo_succ hun (hall e' List.mem_cons_self)
        refine hle.trans (Eq.trans_le ?_ (Nat.add_le_add_right hmore rest.length))
        rw [List.length_cons, Nat.add_right_comm, Nat.add_assoc]
  | fail e' hc => exact ⟨hst, hen, nofun⟩
  | broke => exact ⟨hst, hen, nofun⟩
  | @flushed _ _ _ _ _ log =>
    refine ⟨hst, fun he => ?_, nofun⟩
    change limit * (flushes _ + 1 - start - 1) ≤ _
    rw [Nat.sub_right_comm, Nat.add_sub_cancel]
    by_cases hlt : start < flushes log
    · rcases hba _ rfl rfl hlt he with hin | ⟨-, hle⟩
      · cases hin
      · exact hle
    · rw [Nat.sub_eq_zero_of_le (Nat.le_of_not_lt hlt)]
      exact Nat.zero_le _
  | ended => exact ⟨hst, hen, nofun⟩

lemma Nearer.moves {e : Event U} {start : ℕ} (h : Nearer e start s) (hb : Base s)
    (hm : Moves c s s') : Nearer e start s' := by
  induction hm with
  | refl => exact h
  | tail hms hm ih => exact ih.move (hb.moves hms) hm

omit [DecidableEq U] in
/-- When every row up to the event is published, so is the event. -/
lemma published_of_count {e : Event U} {rows : List (Row U)}
    (h : (upTo e rows).length ≤ publishedUpTo e rows) : e ∉ unpublished rows := by
  intro he
  have hall := List.countP_eq_length.mp (Nat.le_antisymm List.countP_le_length h)
  have hin : ⟨e, false⟩ ∈ upTo e rows :=
    List.mem_filter.mpr ⟨mem_unpublished.mp he, decide_eq_true (Nat.le_refl _)⟩
  cases hall _ hin

theorem reached_of_base (hb : Base s) {e : Event U} (he : e ∈ s.events) {ls : List (Label U)}
    {k : ℕ} (hr : run State.step s ls = some s') (hk : (upTo e s'.rows).length ≤ limit * k)
    (hf : flushes s.log + k < flushes s'.log) : e ∈ handedOut s'.log := by
  have hms : Moves False s s' := run_moves hr nofun
  have hstart : Nearer e (flushes s.log) s := by
    refine ⟨he, fun _ => ?_, fun _ _ _ hlt => absurd hlt (Nat.lt_irrefl _)⟩
    rw [Nat.sub_self]
    exact Nat.zero_le _
  have hnear := hstart.moves hb hms
  have hnot : e ∉ unpublished s'.rows := by
    intro hun
    refine published_of_count ?_ hun
    refine hk.trans (Nat.le_trans (Nat.mul_le_mul_left limit ?_) (hnear.enough hun))
    omega
  obtain ⟨r, hr, rfl⟩ := List.mem_map.mp hnear.stored
  refine (hb.moves hms).delivered r hr ?_
  cases hp : r.published with
  | true => rfl
  | false => exact absurd (mem_unpublished.mpr (hp ▸ hr)) hnot

/-- **The events of each user are published in order, and each of them is published**: in every
order of commits, flushes, immediate publications, failures and restarts in which the works
read the rows of a user by their numbers, none left out before one that is taken, and in which
an event fails only with no event of another user behind it. -/
theorem published_in_order {ls : List (Label U)} (hr : run State.step .initial ls = some s)
    (hok : Meets State.step State.Orderly .initial ls) : s.Published := by
  obtain ⟨hk, hb⟩ := Kept.initial.moves Base.initial (run_moves hr fun _ => hok)
  exact ⟨hk.order, hk.once, hk.isolated, hb.delivered,
    fun e he ls' s' k hr' hlen hf => reached_of_base hb he hr' hlen hf⟩

omit [DecidableEq U] in
/-- An event whose transaction has begun before an earlier one's is flushed before it, an event
that is published at once overtakes those before it, and a refused payload keeps back the
event of another user. -/
theorem not_published_in_order :
    (∃ s : State ℕ, ¬ InOrder s.log ∧ run State.step .initial
      [.commit 5 [⟨1, 1, "room.created", .object none⟩],
        .commit 3 [⟨1, 2, "room.removed", .object none⟩], .flush true,
        .read [⟨1, 2, ⟨2, "room.removed", 3, .object none⟩⟩,
          ⟨1, 1, ⟨1, "room.created", 5, .object none⟩⟩],
        .publish .nothing, .mark .done, .publish .nothing] = some s) ∧
    (∃ s : State ℕ, ¬ InOrder s.log ∧ run State.step .initial
      [.commit 3 [⟨1, 1, "room.created", .object none⟩],
        .commit 5 [⟨1, 2, "room.removed", .object none⟩], .publishNow [2] true,
        .read [⟨1, 2, ⟨2, "room.removed", 5, .object none⟩⟩],
        .publish .nothing, .mark .done, .finish, .flush true,
        .read [⟨1, 1, ⟨1, "room.created", 3, .object none⟩⟩], .publish .nothing] = some s) ∧
    ∃ s : State ℕ, ¬ Isolated s.log ∧ run State.step .initial
      [.commit 3 [⟨1, 1, "room.created", .other⟩],
        .commit 5 [⟨2, 2, "room.created", .object none⟩], .flush true,
        .read [⟨1, 1, ⟨1, "room.created", 3, .other⟩⟩,
          ⟨2, 1, ⟨2, "room.created", 5, .object none⟩⟩],
        .publish .nothing] = some s := by
  refine ⟨⟨_, ?_, rfl⟩, ⟨_, ?_, rfl⟩, ⟨_, ?_, rfl⟩⟩
  · decide
  · decide
  · intro h
    have := h [] _ _ rfl ⟨2, 1, ⟨2, "room.created", 5, .object none⟩⟩ (by decide) (by decide)
    revert this
    decide

/-- Two users, an immediate publication, a lost mark and a crash. -/
def sampleRun : List (Label ℕ) :=
  [.commit 3 [⟨1, 1, "command.updated", .object (some "ANALYZING")⟩],
    .commit 4 [⟨1, 2, "room.removed", .object none⟩, ⟨2, 3, "room.removed", .object none⟩],
    .publishNow [1, 2] true, .flush true,
    .read [⟨1, 1, ⟨1, "command.updated", 3, .object (some "ANALYZING")⟩⟩,
      ⟨1, 2, ⟨2, "room.removed", 4, .object none⟩⟩],
    .publish .nothing, .mark .done, .publish .nothing, .mark (.lost false),
    .read [⟨2, 1, ⟨3, "room.removed", 4, .object none⟩⟩,
      ⟨1, 2, ⟨2, "room.removed", 4, .object none⟩⟩],
    .publish .nothing, .mark .done, .publish .nothing, .crash true, .flush true, .read [],
    .finish]

theorem published_in_order_sample :
    ∃ s, run State.step .initial sampleRun = some s ∧ s.Published := by
  have hsome : (run State.step .initial sampleRun).isSome = true := by decide +kernel
  obtain ⟨s, hs⟩ := Option.isSome_iff_exists.mp hsome
  exact ⟨s, hs, published_in_order hs (by decide +kernel)⟩

end MouseKeeper.Server.Publication
