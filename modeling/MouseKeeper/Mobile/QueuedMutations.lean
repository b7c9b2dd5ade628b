import MouseKeeper.Mobile.MutationQueue

/-!
What becomes of a queued mutation.

Whoever signs in and out meanwhile, it is sent with the token of its owner and under its own key,
and it stays in the outbox until there is a reason to remove it. A flush takes up what is due in
the order of the times at which it was queued; a mutation that waits for its next attempt does
not hold back the later ones.
-/

namespace MouseKeeper.Mobile.Outbox

open Machine

/-! ### The promise -/

/-- An attempt of the mutation: of the call that queued it, or of a flush with its row. -/
def AttemptOf (i : ℕ) (r : Row) (j : ℕ) (rowId : Option ℕ) : Prop :=
  rowId = some r.id ∨ rowId = none ∧ j = i

def SentByOwner (w : World) : Prop :=
  ∀ i r, .queued i r ∈ w.history → ∀ j user rowId m a, .attempt j user rowId m a ∈ w.history →
    AttemptOf i r j rowId → user = r.ownerUid

def KeepsKey (w : World) : Prop :=
  ∀ i r, .queued i r ∈ w.history → ∀ j user rowId m a, .attempt j user rowId m a ∈ w.history →
    AttemptOf i r j rowId → m.idempotencyKey = r.mutation.idempotencyKey

def Answered (h : List Happening) (rowId : ℕ) (p : Answer → Bool) : Prop :=
  ∃ j user m a, .attempt j user (some rowId) m a ∈ h ∧ p a

/-- The reasons for which a step removes a row: the server has accepted it, its room was gone
when a flush came to it, its owner discards it after an attempt that is not tried again, or the
display cache drops its room or everything of its owner. -/
inductive Removable (v : Reading) (w : World) (r : Row) : Event → Prop
  | accepted {i : ℕ} {reply : Reply} (h : Answered w.history r.id (· = .response)) :
    Removable v w r (.advance i reply)
  | roomMissing {i : ℕ} {reply : Reply} (h : ∃ j, .roomMissing j r.id ∈ w.history) :
    Removable v w r (.advance i reply)
  | discarded {i : ℕ} {reply : Reply} (h : Answered w.history r.id Answer.isRefusal)
    (hc : w.call i = some ⟨i, r.ownerUid, .discarding⟩) : Removable v w r (.advance i reply)
  | roomRemoved {roomIds : List String} (h : ∃ id ∈ roomIds, r.targetsRoom v id) :
    Removable v w r (.removeRooms r.ownerUid roomIds)
  | roomVanished {rooms : List String}
    (h : ∃ id ∈ w.database.vanished r.ownerUid rooms, r.targetsRoom v id) :
    Removable v w r (.replaceRooms r.ownerUid rooms)
  | purged : Removable v w r (.purge r.ownerUid)

/-- The step removes the row. -/
def Removes (v : Reading) (w : World) (e : Event) (r : Row) : Prop :=
  ∃ w', step v w e = some w' ∧ r ∈ w.database.mutationOutbox ∧
    ∀ x ∈ w'.database.mutationOutbox, x.id ≠ r.id

/-- A flush takes up its rows in the order in which they were queued. -/
def TakesInOrder (w : World) : Prop :=
  ∀ i j r j' r' user user' m m' a a', .queued j r ∈ w.history → .queued j' r' ∈ w.history →
    [.attempt i user (some r.id) m a, .attempt i user' (some r'.id) m' a'].Sublist w.history →
    r.createdAt ≤ r'.createdAt

structure Promise (v : Reading) (w : World) : Prop where
  sentByOwner : SentByOwner w
  keepsKey : KeepsKey w
  removable : ∀ e r, Removes v w e r → Removable v w r e
  takesInOrder : TakesInOrder w

def Happening.queuedId : Happening → Option ℕ
  | .queued _ r => some r.id
  | _ => none

/-- The generator of identifiers does not repeat itself. -/
def Fresh (w : World) : Event → Prop
  | .advance _ reply => reply.newId ∉ w.history.filterMap Happening.queuedId
  | _ => True

instance (w : World) : DecidablePred (Fresh w)
  | .advance _ reply => inferInstanceAs (Decidable (reply.newId ∉ w.history.filterMap _))
  | .account _ | .restart | .postOrQueue _ | .flush _ | .discardFailed | .fail _
  | .replaceRooms .. | .removeRooms .. | .purge _ => .isTrue trivial

/-! ### What the history tells of a row -/

variable {v : Reading} {w w' : World} {h : List Happening} {db db' : Database} {r r' : Row}
variable {x : Happening} {c : Call} {i : ℕ} {reply : Reply}

/-- The row is what was queued, but for its attempts and its status. -/
def Stems (h : List Happening) (r : Row) : Prop :=
  ∃ i r₀, .queued i r₀ ∈ h ∧ r₀.id = r.id ∧ r₀.ownerUid = r.ownerUid ∧
    r₀.mutation = r.mutation ∧ r₀.createdAt = r.createdAt

lemma Stems.append (hr : Stems h r) : Stems (h ++ [x]) r := by
  obtain ⟨i, r₀, hq, hrest⟩ := hr
  exact ⟨i, r₀, List.mem_append_left _ hq, hrest⟩

lemma Answered.append {p : Answer → Bool} {id : ℕ} (ha : Answered h id p) :
    Answered (h ++ [x]) id p := by
  obtain ⟨j, user, m, a, hm, hp⟩ := ha
  exact ⟨j, user, m, a, List.mem_append_left _ hm, hp⟩

/-- What is true of the database and of the history together. -/
structure Kept (db : Database) (h : List Happening) : Prop where
  rows : ∀ r ∈ db.mutationOutbox, Stems h r ∧
    (r.status = .failed → Answered h r.id Answer.isRefusal)
  once : ∀ i j r r', .queued i r ∈ h → .queued j r' ∈ h → r.id = r'.id → r = r'
  known : ∀ j user id m a, .attempt j user (some id) m a ∈ h → ∃ i r, .queued i r ∈ h ∧ r.id = id
  same : ∀ i r, .queued i r ∈ h → ∀ j user rowId m a, .attempt j user rowId m a ∈ h →
    AttemptOf i r j rowId → user = r.ownerUid ∧ m = r.mutation
  order : ∀ i j r j' r' user user' m m' a a', .queued j r ∈ h → .queued j' r' ∈ h →
    [.attempt i user (some r.id) m a, .attempt i user' (some r'.id) m' a'].Sublist h →
    r.createdAt ≤ r'.createdAt

lemma Kept.database (hk : Kept db h) (hrows : ∀ r ∈ db'.mutationOutbox, Stems h r ∧
    (r.status = .failed → Answered h r.id Answer.isRefusal)) : Kept db' h :=
  { hk with rows := hrows }

/-! ### What the history tells of a call -/

def Point.rows : Point → List Row
  | .selected rows => rows
  | .row r rest _ => r :: rest
  | .written rest => rest
  | _ => []

/-- The mutation that a call posts. -/
def Point.mutation : Point → Option Mutation
  | .postTokening m _ | .postTokened m _ | .posting m _ | .posted m _ | .queueing m => some m
  | _ => none

/-- The user whose token the call is about to use. -/
def Point.user : Point → Option ℕ
  | .row _ _ (.tokening user) | .row _ _ (.tokened user) | .row _ _ (.sending user) => some user
  | .postTokening _ user | .postTokened _ user | .posting _ user => some user
  | _ => none

/-- What has happened before the point is reached. -/
def Point.Reached (h : List Happening) (id : ℕ) : Point → Prop
  | .selecting _ => ∀ user rowId m a, .attempt id user rowId m a ∉ h
  | .row r _ (.checkedRoom false) | .row r _ .dropping => ∃ j, .roomMissing j r.id ∈ h
  | .row r _ (.answered answer) => Answered h r.id (· = answer)
  | .row r _ .deleting => Answered h r.id (· = .response)
  | .row r _ (.failing _) => Answered h r.id Answer.isRefusal
  | _ => True

structure CallKept (h : List Happening) (c : Call) : Prop where
  rows : ∀ r ∈ c.point.rows, Stems h r ∧ r.ownerUid = c.ownerUid
  sorted : c.point.rows.Pairwise fun a b => a.createdAt ≤ b.createdAt
  later : ∀ user m a j r, .queued j r ∈ h → .attempt c.id user (some r.id) m a ∈ h →
    ∀ r' ∈ c.point.rows, r.createdAt ≤ r'.createdAt
  posts : ∀ m, c.point.mutation = some m → (∀ r, .queued c.id r ∉ h) ∧
    ∀ user m' a, .attempt c.id user none m' a ∈ h → user = c.ownerUid ∧ m' = m
  user : ∀ user, c.point.user = some user → user = c.ownerUid
  reached : c.point.Reached h c.id

def Happening.call : Happening → ℕ
  | .queued call _ | .attempt call _ _ _ _ | .roomMissing call _ => call

lemma mem_of_ne {y : Happening} (hy : y ∈ h ++ [x]) (hne : y.call ≠ x.call) : y ∈ h := by
  rcases List.mem_append.mp hy with hy | hy
  · exact hy
  · exact absurd (congrArg Happening.call (List.mem_singleton.mp hy)) hne

lemma Point.Reached.append {p : Point} {id : ℕ} (hp : p.Reached h id)
    (hx : ∀ now, p = .selecting now → x.call ≠ id) : p.Reached (h ++ [x]) id := by
  have hmiss : ∀ {k}, (∃ j, .roomMissing j k ∈ h) → ∃ j, .roomMissing j k ∈ h ++ [x] :=
    fun ⟨j, hj⟩ => ⟨j, List.mem_append_left _ hj⟩
  cases p with
  | selecting now =>
    exact fun user rowId m a hm => hp user rowId m a (mem_of_ne hm (hx now rfl).symm)
  | row r rest point =>
    cases point with
    | checkedRoom present =>
      cases present with
      | true => trivial
      | false => exact hmiss hp
    | dropping => exact hmiss hp
    | answered answer => exact Answered.append hp
    | deleting => exact Answered.append hp
    | failing code => exact Answered.append hp
    | _ => trivial
  | _ => trivial

/-- What another call does leaves the call as it is. -/
lemma CallKept.other (hk : CallKept h c) (hne : x.call ≠ c.id)
    (hx : ∀ i r, x = .queued i r → ∀ j user m a, .attempt j user (some r.id) m a ∉ h) :
    CallKept (h ++ [x]) c where
  rows r hr := ⟨(hk.rows r hr).1.append, (hk.rows r hr).2⟩
  sorted := hk.sorted
  later user m a j r hq ha r' hr' := by
    have ha := mem_of_ne ha hne.symm
    rcases List.mem_append.mp hq with hq | hq
    · exact hk.later user m a j r hq ha r' hr'
    · exact absurd ha (hx j r (List.mem_singleton.mp hq).symm _ _ _ _)
  posts m hm := ⟨fun r hr => (hk.posts m hm).1 r (mem_of_ne hr hne.symm), fun user m' a ha =>
    (hk.posts m hm).2 user m' a (mem_of_ne ha hne.symm)⟩
  user := hk.user
  reached := hk.reached.append fun _ _ => hne

/-- The call itself makes an attempt, of its row or of its mutation, or finds its room gone. -/
lemma CallKept.own (hk : CallKept h c) (hq : ∀ i r, x ≠ .queued i r)
    (hs : ∀ now, c.point ≠ .selecting now)
    (hrow : ∀ user id m a, x = .attempt c.id user (some id) m a → ∀ j r, .queued j r ∈ h →
      r.id = id → ∀ r' ∈ c.point.rows, r.createdAt ≤ r'.createdAt)
    (hpost : ∀ user m' a m, x = .attempt c.id user none m' a → c.point.mutation = some m →
      user = c.ownerUid ∧ m' = m) : CallKept (h ++ [x]) c where
  rows r hr := ⟨(hk.rows r hr).1.append, (hk.rows r hr).2⟩
  sorted := hk.sorted
  later user m a j r hqr ha r' hr' := by
    have hqr : .queued j r ∈ h := (List.mem_append.mp hqr).resolve_right
      fun he => hq j r (List.mem_singleton.mp he).symm
    rcases List.mem_append.mp ha with ha | ha
    · exact hk.later user m a j r hqr ha r' hr'
    · exact hrow _ _ _ _ (List.mem_singleton.mp ha).symm j r hqr rfl r' hr'
  posts m hm := by
    refine ⟨fun r hr => ?_, fun user m' a ha => ?_⟩
    · rcases List.mem_append.mp hr with hr | hr
      · exact (hk.posts m hm).1 r hr
      · exact hq _ _ (List.mem_singleton.mp hr).symm
    · rcases List.mem_append.mp ha with ha | ha
      · exact (hk.posts m hm).2 user m' a ha
      · exact hpost user m' a m (List.mem_singleton.mp ha).symm hm
  user := hk.user
  reached := hk.reached.append fun now he => absurd he (hs now)

/-- The call goes on with the same rows, or with fewer, and with the same mutation, if any. -/
lemma CallKept.goOn {p : Point} (hk : CallKept h c) (hrows : p.rows.Sublist c.point.rows)
    (hm : ∀ m, p.mutation = some m → c.point.mutation = some m)
    (hu : ∀ user, p.user = some user → user = c.ownerUid) (hr : p.Reached h c.id) :
    CallKept h { c with point := p } where
  rows r hr := hk.rows r (hrows.subset hr)
  sorted := hk.sorted.sublist hrows
  later user m a j r hq ha r' hr' := hk.later user m a j r hq ha r' (hrows.subset hr')
  posts m hpm := hk.posts m (hm m hpm)
  user := hu
  reached := hr

/-! ### Happenings -/

lemma pair_sublist {y z : Happening} (hs : [y, z].Sublist (h ++ [x])) :
    [y, z].Sublist h ∨ y ∈ h ∧ z = x := by
  obtain ⟨l₁, l₂, he, h₁, h₂⟩ := List.sublist_append_iff.mp hs
  rcases l₂ with _ | ⟨a, l₂⟩
  · rw [List.append_nil] at he
    exact .inl (he ▸ h₁)
  · have hl : a :: l₂ = [x] := h₂.eq_of_length_le (by simp)
    rw [hl] at he
    obtain ⟨rfl, rfl⟩ : l₁ = [y] ∧ z = x := by
      rcases l₁ with _ | ⟨b, _ | ⟨b', l₁⟩⟩ <;> simp_all
    exact .inr ⟨List.singleton_sublist.mp h₁, rfl⟩

/-- Anything but a new row; an attempt is one of a row or of a call that has queued nothing. -/
lemma Kept.append (hk : Kept db h) (hx : ∀ i r, x ≠ .queued i r)
    (hsame : ∀ j user o m a, x = .attempt j user o m a → ∀ i r, .queued i r ∈ h →
      AttemptOf i r j o → user = r.ownerUid ∧ m = r.mutation)
    (hknown : ∀ j user id m a, x = .attempt j user (some id) m a →
      ∃ i r, .queued i r ∈ h ∧ r.id = id)
    (horder : ∀ i user' id m' a', x = .attempt i user' (some id) m' a' → ∀ j r user m a,
      .queued j r ∈ h → .attempt i user (some r.id) m a ∈ h → ∀ j' r', .queued j' r' ∈ h →
      r'.id = id → r.createdAt ≤ r'.createdAt) : Kept db (h ++ [x]) := by
  have hq : ∀ {i r}, .queued i r ∈ h ++ [x] → .queued i r ∈ h := fun hm =>
    (List.mem_append.mp hm).resolve_right fun he => hx _ _ (List.mem_singleton.mp he).symm
  refine ⟨fun r hr => ⟨(hk.rows r hr).1.append, fun hf => ((hk.rows r hr).2 hf).append⟩,
    fun i j r r' hr hr' => hk.once i j r r' (hq hr) (hq hr'), fun i user id m a hm => ?_,
    fun i r hr i' user o m a hm hof => ?_,
    fun i j r j' r' user user' m m' a a' hr hr' hs => ?_⟩
  · have hall : ∃ i r, .queued i r ∈ h ∧ r.id = id := by
      rcases List.mem_append.mp hm with hm | hm
      · exact hk.known _ _ _ _ _ hm
      · exact hknown _ _ _ _ _ (List.mem_singleton.mp hm).symm
    obtain ⟨i, r, hr, hid⟩ := hall
    exact ⟨i, r, List.mem_append_left _ hr, hid⟩
  · rcases List.mem_append.mp hm with hm | hm
    · exact hk.same i r (hq hr) i' user o m a hm hof
    · exact hsame _ _ _ _ _ (List.mem_singleton.mp hm).symm i r (hq hr) hof
  · rcases pair_sublist hs with hs | ⟨hm, he⟩
    · exact hk.order i j r j' r' user user' m m' a a' (hq hr) (hq hr') hs
    · exact horder _ _ _ _ _ he.symm j r user m a (hq hr) hm j' r' (hq hr') rfl

/-- A new row, of a call whose attempts were of its mutation. -/
lemma Kept.queue (hk : Kept db h) (hnew : ∀ j r', .queued j r' ∈ h → r'.id ≠ r.id)
    (hfail : r.status ≠ .failed)
    (hpost : ∀ user m a, .attempt i user none m a ∈ h → user = r.ownerUid ∧ m = r.mutation) :
    Kept { db with mutationOutbox := db.mutationOutbox ++ [r] } (h ++ [.queued i r]) := by
  have hq : ∀ {j r'}, Happening.queued j r' ∈ h ++ [.queued i r] → .queued j r' ∈ h ∨ j = i ∧ r' = r :=
    fun hm => (List.mem_append.mp hm).imp_right fun he => by simpa using he
  have ha : ∀ {j user o m a}, Happening.attempt j user o m a ∈ h ++ [.queued i r] →
      .attempt j user o m a ∈ h := fun hm =>
    (List.mem_append.mp hm).resolve_right fun he => by simp at he
  have hun : ∀ {j user m a}, Happening.attempt j user (some r.id) m a ∉ h := fun hm => by
    obtain ⟨j', r', hr', hid⟩ := hk.known _ _ _ _ _ hm
    exact hnew j' r' hr' hid
  refine ⟨fun r' hr' => ?_, fun j j' r₁ r₂ h₁ h₂ hid => ?_, fun j user id m a hm => ?_,
    fun j r₁ h₁ j' user o m a hm hof => ?_, fun k j r₁ j' r₂ user user' m m' a a' h₁ h₂ hs => ?_⟩
  · rcases List.mem_append.mp hr' with hr' | hr'
    · exact ⟨(hk.rows r' hr').1.append, fun hf => ((hk.rows r' hr').2 hf).append⟩
    · rw [List.mem_singleton.mp hr']
      exact ⟨⟨i, r, by simp, rfl, rfl, rfl, rfl⟩, fun hf => absurd hf hfail⟩
  · rcases hq h₁ with hr₁ | ⟨-, rfl⟩ <;> rcases hq h₂ with hr₂ | ⟨-, rfl⟩
    · exact hk.once j j' r₁ r₂ hr₁ hr₂ hid
    · exact absurd hid (hnew j r₁ hr₁)
    · exact absurd hid.symm (hnew j' r₂ hr₂)
    · rfl
  · obtain ⟨j', r', hr', hid⟩ := hk.known _ _ _ _ _ (ha hm)
    exact ⟨j', r', List.mem_append_left _ hr', hid⟩
  · rcases hq h₁ with h₁ | ⟨rfl, rfl⟩
    · exact hk.same j r₁ h₁ j' user o m a (ha hm) hof
    · rcases hof with rfl | ⟨rfl, rfl⟩
      · exact absurd (ha hm) hun
      · exact hpost user m a (ha hm)
  · have hold : [Happening.attempt k user (some r₁.id) m a,
        .attempt k user' (some r₂.id) m' a'].Sublist h := by
      rcases pair_sublist hs with hs | ⟨-, he⟩
      · exact hs
      · cases he
    rcases hq h₁ with h₁ | ⟨-, rfl⟩
    · rcases hq h₂ with h₂ | ⟨-, rfl⟩
      · exact hk.order k j r₁ j' r₂ user user' m m' a a' h₁ h₂ hold
      · exact absurd (hold.subset (List.mem_cons_of_mem _ (List.mem_singleton_self _))) hun
    · exact absurd (hold.subset List.mem_cons_self) hun

/-! ### Statements on the outbox -/

lemma mem_delete {p : Row → Bool} :
    r ∈ (db.delete p).mutationOutbox ↔ r ∈ db.mutationOutbox ∧ p r = false := by
  simp [Database.delete]

lemma Kept.subset (hk : Kept db h)
    (hs : ∀ r ∈ db'.mutationOutbox, r ∈ db.mutationOutbox) : Kept db' h :=
  hk.database fun r hr => hk.rows r (hs r hr)

/-- A row keeps what it was queued as. -/
lemma Kept.update {ownerUid id : ℕ} {f : Row → Row} (hk : Kept db h)
    (hf : ∀ r, Stems h r → Stems h (f r))
    (hs : ∀ r ∈ db.mutationOutbox, r.id = id → (f r).status = .failed →
      Answered h (f r).id Answer.isRefusal) : Kept (db.update ownerUid id f) h := by
  refine hk.database fun r hr => ?_
  obtain ⟨x, hx, rfl⟩ := List.mem_map.mp hr
  split
  · next hc =>
    simp only [Bool.and_eq_true, decide_eq_true_eq] at hc
    exact ⟨hf x (hk.rows x hx).1, hs x hx hc.2⟩
  · exact hk.rows x hx

/-! ### One step of a call -/

lemma assertOwnerUid_some {ownerUid : ℕ} {next : Option Point} {p : Point}
    (hp : w.assertOwnerUid ownerUid next = some p) : next = some p := by
  unfold World.assertOwnerUid at hp
  split at hp
  · exact hp
  · cases hp

/-- The token that a call waits for is of the user whom it expects. -/
lemma options_some {ownerUid : ℕ} {next : ℕ → Point} {p : Point}
    (hp : w.options ownerUid next = some p) : p = next ownerUid := by
  obtain ⟨user, -, hp⟩ := Option.bind_eq_some_iff.mp hp
  split at hp
  · next he => exact he ▸ (Option.some.inj hp).symm
  · cases hp

lemma nextRow_some {ownerUid : ℕ} {rows : List Row} {p : Point}
    (hp : w.nextRow v ownerUid rows = some p) :
    p.rows = rows ∧ p.mutation = none ∧ (∀ user, p.user = some user → user = ownerUid) ∧
      ∀ h id, p.Reached h id := by
  unfold World.nextRow at hp
  split at hp
  · cases hp
  · split at hp
    · cases hp
      exact ⟨rfl, rfl, fun _ hu => (by cases hu), fun _ _ => trivial⟩
    · rw [options_some hp]
      exact ⟨rfl, rfl, fun _ hu => (Option.some.inj hu).symm, fun _ _ => trivial⟩

structure WorldKept (w : World) : Prop where
  kept : Kept w.database w.history
  calls : ∀ c ∈ w.calls, c.id < w.started ∧ CallKept w.history c
  alone : (w.calls.map (·.id)).Nodup
  past : ∀ x ∈ w.history, x.call < w.started

/-- What a step of a call comes to. -/
structure Stepped (w : World) (c : Call) (s : World × Option Point) : Prop where
  calls : s.1.calls = w.calls
  started : s.1.started = w.started
  kept : Kept s.1.database s.1.history
  point : ∀ p, s.2 = some p → CallKept s.1.history { c with point := p }
  history : s.1.history = w.history ∨ ∃ x, s.1.history = w.history ++ [x] ∧ x.call = c.id ∧
    ∀ i r, x = .queued i r → ∀ j user m a, .attempt j user (some r.id) m a ∉ w.history

variable {next : Option Point} {p : Point} {ownerUid : ℕ}

lemma WorldKept.code (hw : WorldKept w)
    (hp : ∀ p, next = some p → CallKept w.history { c with point := p }) :
    Stepped w c (w, next) := ⟨rfl, rfl, hw.kept, hp, .inl rfl⟩

lemma WorldKept.changes (hk : Kept db' w.history)
    (hp : ∀ p, next = some p → CallKept w.history { c with point := p }) :
    Stepped w c ({ w with database := db' }, next) := ⟨rfl, rfl, hk, hp, .inl rfl⟩

/-- An attempt or a room that is gone, after which the call goes on. -/
lemma WorldKept.logs (hk : Kept w.database (w.history ++ [x])) (hx : x.call = c.id)
    (hq : ∀ i r, x ≠ .queued i r) (hp : CallKept (w.history ++ [x]) { c with point := p }) :
    Stepped w c (w.log x, some p) :=
  ⟨rfl, rfl, hk, fun _ h => Option.some.inj h ▸ hp,
    .inr ⟨x, rfl, hx, fun i r he => absurd he (hq i r)⟩⟩

lemma mem_due {ownerUid now : ℕ} (hr : r ∈ db.due ownerUid now) :
    r ∈ db.mutationOutbox ∧ r.ownerUid = ownerUid := by
  have hm := (List.mem_insertionSort _).mp hr
  simp only [List.mem_filter, Bool.and_eq_true, decide_eq_true_eq] at hm
  exact ⟨hm.1, hm.2.1.1⟩

lemma due_sorted {ownerUid now : ℕ} :
    (db.due ownerUid now).Pairwise fun a b => a.createdAt ≤ b.createdAt :=
  List.pairwise_insertionSort _ _

lemma WorldKept.rowStep {m : Row} {rest : List Row} {point : RowPoint} (hw : WorldKept w)
    (hk : CallKept w.history ⟨i, ownerUid, .row m rest point⟩) :
    Stepped w ⟨i, ownerUid, .row m rest point⟩ (w.rowStep reply i ownerUid m rest point) := by
  have hm := hk.rows m List.mem_cons_self
  cases point with
  | checkingRoom roomId =>
    simp only [World.rowStep]
    split
    · exact hw.code fun p hp => by
        cases hp
        exact hk.goOn (.refl _) (fun _ h => h) (fun _ h => by cases h) trivial
    · have hown := hk.own (x := .roomMissing i m.id) (fun _ _ h => by cases h)
        (fun _ h => by cases h) (fun _ _ _ _ h => by cases h) fun _ _ _ _ h => by cases h
      exact WorldKept.logs (hw.kept.append (fun _ _ h => by cases h)
        (fun _ _ _ _ _ h => by cases h) (fun _ _ _ _ _ h => by cases h)
        fun _ _ _ _ _ h => by cases h) rfl (fun _ _ h => by cases h)
        (hown.goOn (.refl _) (fun _ h => h) (fun _ h => by cases h) ⟨i, by simp⟩)
  | checkedRoom present =>
    refine hw.code fun p hp => ?_
    have hp := assertOwnerUid_some hp
    cases present with
    | true =>
      rw [options_some hp]
      exact hk.goOn (.refl _) (fun _ h => h) (fun _ h => (Option.some.inj h).symm) trivial
    | false =>
      cases hp
      exact hk.goOn (.refl _) (fun _ h => h) (fun _ h => by cases h) hk.reached
  | dropping =>
    refine WorldKept.changes (hw.kept.subset fun r hr => (mem_delete.mp hr).1) fun p hp => ?_
    cases hp
    exact hk.goOn (List.sublist_cons_self _ _) (fun _ h => h) (fun _ h => by cases h) trivial
  | tokening user =>
    refine hw.code fun p hp => ?_
    cases hp
    exact hk.goOn (.refl _) (fun _ h => h) hk.user trivial
  | tokened user =>
    refine hw.code fun p hp => ?_
    cases assertOwnerUid_some hp
    exact hk.goOn (.refl _) (fun _ h => h) hk.user trivial
  | sending user =>
    have hu : user = ownerUid := hk.user user rfl
    subst hu
    obtain ⟨⟨j, r₀, hq, hid, hown, hmut, hcre⟩, ho⟩ := hm
    have hthis : ∀ j r, .queued j r ∈ w.history → r.id = m.id → r = r₀ := fun j r hr he =>
      hw.kept.once _ _ r r₀ hr hq (he.trans hid.symm)
    have hle : ∀ r' ∈ m :: rest, m.createdAt ≤ r'.createdAt := fun r' hr' => by
      rcases List.mem_cons.mp hr' with rfl | hr'
      · rfl
      · exact List.rel_of_pairwise_cons hk.sorted hr'
    have hgo := hk.own (x := .attempt i user (some m.id) m.mutation reply.answer)
      (fun _ _ h => by cases h) (fun _ h => by cases h)
      (fun _ _ _ _ h j r hr he r' hr' => by
        cases h
        rw [hthis j r hr he, hcre]
        exact hle r' hr') fun _ _ _ _ h => by cases h
    refine WorldKept.logs (hw.kept.append (fun _ _ h => by cases h) (fun _ _ _ _ _ h k r hr hof => ?_)
      (fun _ _ _ _ _ h => ?_) fun _ _ _ _ _ h k r u m' a hr ha k' r' hr' he => ?_) rfl
      (fun _ _ h => by cases h) (hgo.goOn (.refl _) (fun _ h => h) (fun _ h => by cases h) ?_)
    · cases h
      obtain hof | ⟨hof, -⟩ := hof
      · rw [hthis k r hr (Option.some.inj hof).symm]
        exact ⟨(hown.trans ho).symm, hmut.symm⟩
      · cases hof
    · cases h
      exact ⟨j, r₀, hq, hid⟩
    · cases h
      rw [hthis k' r' hr' he, hcre]
      exact hk.later u m' a k r hr ha m List.mem_cons_self
    · exact ⟨i, user, m.mutation, reply.answer, by simp, by simp⟩
  | answered answer =>
    refine hw.code fun p hp => ?_
    cases assertOwnerUid_some hp
    have hr : Answered w.history m.id (· = answer) := hk.reached
    refine hk.goOn ?_ ?_ ?_ ?_
    all_goals split
    · exact .refl _
    · split <;> exact .refl _
    · exact fun _ h => h
    · split <;> exact fun _ h => h
    · exact fun _ h => by cases h
    · split <;> exact fun _ h => by cases h
    · next he => exact he ▸ hr
    · next he =>
      split
      · trivial
      · next hne =>
        obtain ⟨j, u, m', a, ha, heq⟩ := hr
        refine ⟨j, u, m', a, ha, ?_⟩
        rw [of_decide_eq_true heq]
        simp [Answer.isRefusal, he, hne]
  | deleting =>
    refine WorldKept.changes (hw.kept.subset fun r hr => (mem_delete.mp hr).1) fun p hp => ?_
    cases hp
    exact hk.goOn (List.sublist_cons_self _ _) (fun _ h => h) (fun _ h => by cases h) trivial
  | failing code =>
    refine WorldKept.changes (hw.kept.update (fun _ h => h) fun r _ hid _ => ?_) fun p hp => ?_
    · exact hid ▸ hk.reached
    · cases hp
      exact hk.goOn (List.sublist_cons_self _ _) (fun _ h => h) (fun _ h => by cases h) trivial
  | postponing attempts retry =>
    refine WorldKept.changes (hw.kept.update (fun _ h => h) fun r hr _ => (hw.kept.rows r hr).2)
      fun p hp => ?_
    cases hp
    exact hk.goOn (List.sublist_cons_self _ _) (fun _ h => h) (fun _ h => by cases h) trivial

/-- The transaction of a call that queues. -/
lemma WorldKept.queue {m : Mutation} (hw : WorldKept w)
    (hk : CallKept w.history ⟨i, ownerUid, .queueing m⟩)
    (hnew : ∀ j r, .queued j r ∈ w.history → r.id ≠ reply.newId) :
    Stepped w ⟨i, ownerUid, .queueing m⟩ (w.queue reply i ownerUid m) := by
  have hnone : Stepped w ⟨i, ownerUid, .queueing m⟩ (w, none) := hw.code fun _ h => by cases h
  unfold World.queue
  split
  · split
    · next database hi =>
      unfold Database.insert at hi
      split at hi
      · cases hi
      · cases hi
        have hun : ∀ j user m' a,
            .attempt j user (some (World.newRow reply ownerUid m).id) m' a ∉ w.history := by
          intro j user m' a ha
          obtain ⟨k, r, hr, hid⟩ := hw.kept.known _ _ _ _ _ ha
          exact hnew k r hr hid
        refine ⟨rfl, rfl, hw.kept.queue hnew (fun h => by cases h) (hk.posts m rfl).2, fun p hp => ?_,
          .inr ⟨_, rfl, rfl, fun j r he => by cases he; exact hun⟩⟩
        cases hp
        exact ⟨fun _ h => (by cases h), .nil, fun _ _ _ _ _ _ _ _ h => (by cases h),
          fun _ h => (by cases h), fun _ h => (by cases h), trivial⟩
    · exact hnone
  · exact hnone

/-- **One step of a call** keeps what the history tells. -/
lemma WorldKept.callStep (hw : WorldKept w) (hc : c ∈ w.calls)
    (hnew : ∀ j r, .queued j r ∈ w.history → r.id ≠ reply.newId) :
    Stepped w c (w.callStep v reply c.id c.ownerUid c.point) := by
  obtain ⟨-, hk⟩ := hw.calls c hc
  obtain ⟨id, ownerUid, point⟩ := c
  have hnext : ∀ {rows : List Row}, rows.Sublist point.rows → ∀ p,
      w.assertOwnerUid ownerUid (w.nextRow v ownerUid rows) = some p →
      CallKept w.history ⟨id, ownerUid, p⟩ := fun hrows p hp => by
    obtain ⟨hr, hm, hu, hreach⟩ := nextRow_some (assertOwnerUid_some hp)
    exact hk.goOn (hr ▸ hrows) (fun _ h => by rw [hm] at h; cases h) hu (hreach _ _)
  cases point with
  | selecting now =>
    refine hw.code fun p hp => ?_
    cases hp
    have hno : ∀ user rowId m a, .attempt id user rowId m a ∉ w.history := hk.reached
    exact ⟨fun r hr => ⟨(hw.kept.rows r (mem_due hr).1).1, (mem_due hr).2⟩, due_sorted,
      fun user m a j r _ ha => absurd ha (hno _ _ _ _), fun _ h => (by cases h),
      fun _ h => (by cases h), trivial⟩
  | selected pending => exact hw.code (hnext (.refl _))
  | row m rest point => exact hw.rowStep hk
  | written rest => exact hw.code (hnext (.refl _))
  | postTokening m user =>
    refine hw.code fun p hp => ?_
    cases hp
    exact hk.goOn (.refl _) (fun _ h => h) hk.user trivial
  | postTokened m user =>
    refine hw.code fun p hp => ?_
    cases assertOwnerUid_some hp
    exact hk.goOn (.refl _) (fun _ h => h) hk.user trivial
  | posting m user =>
    obtain ⟨hq, ha⟩ := hk.posts m rfl
    have hu : user = ownerUid := hk.user user rfl
    have hgo := hk.own (x := .attempt id user none m reply.answer) (fun _ _ h => by cases h)
      (fun _ h => by cases h) (fun _ _ _ _ h => by cases h) fun _ _ _ _ h hm => by
        cases h
        exact ⟨hu, Option.some.inj hm⟩
    refine WorldKept.logs (hw.kept.append (fun _ _ h => by cases h) (fun _ _ _ _ _ h j r hr hof => ?_)
      (fun _ _ _ _ _ h => by cases h) fun _ _ _ _ _ h => by cases h) rfl (fun _ _ h => by cases h)
      (hgo.goOn (.refl _) (fun _ h => h) (fun _ h => by cases h) trivial)
    cases h
    obtain hof | ⟨-, hof⟩ := hof
    · cases hof
    · exact absurd (hof ▸ hr) (hq r)
  | posted m answer =>
    refine hw.code fun p hp => ?_
    have hp := assertOwnerUid_some hp
    split at hp
    · cases hp
      exact hk.goOn (.refl _) (fun _ h => h) (fun _ h => by cases h) trivial
    · cases hp
  | queueing m => exact hw.queue hk hnew
  | queued => exact hw.code fun p hp => by cases hp
  | discarding =>
    refine WorldKept.changes (hw.kept.subset fun r hr => (mem_delete.mp hr).1) fun p hp => ?_
    cases hp

/-! ### All steps -/

lemma mem_of_call (h : w.call i = some c) : c ∈ w.calls ∧ c.id = i :=
  ⟨List.mem_of_find?_eq_some h, by simpa using List.find?_some h⟩

/-- The other calls keep what they had when one of them takes a step. -/
lemma WorldKept.advance {s : World × Option Point} (hw : WorldKept w) (hc : c ∈ w.calls)
    (hs : Stepped w c s) : WorldKept (s.1.goOn c s.2) := by
  have hothers : ∀ x ∈ w.calls, x.id ≠ c.id → CallKept s.1.history x := by
    intro x hx hne
    rcases hs.history with he | ⟨y, he, hy, hq⟩
    · rw [he]
      exact (hw.calls x hx).2
    · rw [he]
      exact (hw.calls x hx).2.other (hy ▸ hne.symm) hq
  have hpast : ∀ y ∈ s.1.history, y.call < w.started := by
    rcases hs.history with he | ⟨y, he, hy, -⟩
    · rw [he]
      exact hw.past
    · rw [he]
      intro z hz
      rcases List.mem_append.mp hz with hz | hz
      · exact hw.past z hz
      · rw [List.mem_singleton.mp hz, hy]
        exact (hw.calls c hc).1
  have hcalls := hs.calls
  have hstarted := hs.started
  cases hp : s.2 with
  | none =>
    refine ⟨hs.kept, fun x hx => ?_, ?_, hstarted ▸ hpast⟩
    · obtain ⟨hx, hne⟩ := List.mem_filter.mp hx
      rw [hcalls] at hx
      exact ⟨hstarted ▸ (hw.calls x hx).1, hothers x hx (by simpa using hne)⟩
    · simp only [World.goOn, hcalls]
      exact hw.alone.sublist (List.filter_sublist.map _)
  | some p =>
    refine ⟨hs.kept, fun x hx => ?_, ?_, hstarted ▸ hpast⟩
    · obtain ⟨y, hy, rfl⟩ := List.mem_map.mp hx
      rw [hcalls] at hy
      split
      · next he =>
        have hyc : y = c := List.inj_on_of_nodup_map hw.alone hy hc he
        exact ⟨hstarted ▸ (hw.calls y hy).1, hyc ▸ hs.point p hp⟩
      · next hne => exact ⟨hstarted ▸ (hw.calls y hy).1, hothers y hy hne⟩
    · have he : (s.1.goOn c (some p)).calls.map (·.id) = w.calls.map (·.id) := by
        simp only [World.goOn, hcalls, List.map_map]
        refine List.map_congr_left fun x _ => ?_
        simp only [Function.comp]
        split <;> rfl
      rw [he]
      exact hw.alone

/-- A call that begins has done nothing yet. -/
lemma WorldKept.start (hw : WorldKept w) (hrows : p.rows = [])
    (hu : ∀ user, p.user = some user → user = ownerUid)
    (hr : ∀ id, (∀ x ∈ w.history, x.call ≠ id) → p.Reached w.history id) :
    WorldKept (w.start ownerUid p) := by
  have hnot : ∀ x ∈ w.history, x.call ≠ w.started := fun x hx => (hw.past x hx).ne
  refine ⟨hw.kept, fun x hx => ?_, ?_, fun x hx => (hw.past x hx).trans (Nat.lt_succ_self _)⟩
  · rcases List.mem_append.mp hx with hx | hx
    · exact ⟨(hw.calls x hx).1.trans (Nat.lt_succ_self _), (hw.calls x hx).2⟩
    · rw [List.mem_singleton.mp hx]
      exact ⟨Nat.lt_succ_self _, fun r h => (by rw [hrows] at h; cases h), by rw [hrows]; exact .nil,
        fun _ _ _ _ _ _ ha => absurd rfl (hnot _ ha),
        fun m _ => ⟨fun r h => hnot _ h rfl, fun _ _ _ h => absurd rfl (hnot _ h)⟩, hu, hr _ hnot⟩
  · simp only [World.start, List.map_append, List.map_cons, List.map_nil]
    refine hw.alone.append (List.nodup_singleton _) fun k hk hk' => ?_
    obtain ⟨x, hx, rfl⟩ := List.mem_map.mp hk
    exact (hw.calls x hx).1.ne (List.mem_singleton.mp hk')

lemma mem_deleteRoomRows {roomId : String} : r ∈ (db.deleteRoomRows ownerUid v roomId).mutationOutbox ↔
    r ∈ db.mutationOutbox ∧ (r.ownerUid = ownerUid → r.targetsRoom v roomId = false) := by
  simp [Database.deleteRoomRows, mem_delete]

/-- What is left of the outbox when rooms are removed. -/
lemma mem_removeRooms {roomIds : List String} : r ∈ (db.removeRooms ownerUid v roomIds).mutationOutbox ↔
    r ∈ db.mutationOutbox ∧ (r.ownerUid = ownerUid → ∀ id ∈ roomIds, r.targetsRoom v id = false) := by
  unfold Database.removeRooms
  induction roomIds generalizing db with
  | nil => simp
  | cons id ids ih =>
    rw [List.foldl_cons, ih, mem_deleteRoomRows, List.forall_mem_cons]
    tauto

lemma targets_of_removed {roomIds : List String} (hr : r ∈ db.mutationOutbox)
    (hnot : r ∉ (db.removeRooms ownerUid v roomIds).mutationOutbox) :
    r.ownerUid = ownerUid ∧ ∃ id ∈ roomIds, r.targetsRoom v id := by
  rw [mem_removeRooms, not_and] at hnot
  have h := hnot hr
  push Not at h
  obtain ⟨ho, id, hid, ht⟩ := h
  exact ⟨ho, id, hid, by simpa using ht⟩

lemma mem_purge : r ∈ (db.purgeConnectionDisplayData ownerUid).mutationOutbox ↔
    r ∈ db.mutationOutbox ∧ r.ownerUid ≠ ownerUid := by
  simp [Database.purgeConnectionDisplayData, mem_delete]

/-- **One step** keeps what the history tells. -/
lemma WorldKept.step {e : Event} (hw : WorldKept w) (hf : Fresh w e)
    (hs : Outbox.step v w e = some w') : WorldKept w' := by
  cases e with
  | account uid =>
    cases hs
    exact ⟨hw.kept, hw.calls, hw.alone, hw.past⟩
  | restart =>
    cases hs
    exact ⟨hw.kept, fun _ h => (by cases h), .nil, hw.past⟩
  | postOrQueue m =>
    obtain ⟨ownerUid, -, hs⟩ := Option.bind_eq_some_iff.mp hs
    obtain ⟨p, hp, rfl⟩ := Option.map_eq_some_iff.mp hs
    rw [options_some hp]
    exact hw.start rfl (fun _ h => (Option.some.inj h).symm) fun _ _ => trivial
  | flush now =>
    obtain ⟨ownerUid, -, rfl⟩ := Option.map_eq_some_iff.mp hs
    split
    · exact hw
    · have hstart : WorldKept (w.start ownerUid (.selecting now)) := hw.start rfl
        (fun _ h => by cases h) fun id hno user rowId m a ha => hno _ ha rfl
      exact ⟨hstart.kept, hstart.calls, hstart.alone, hstart.past⟩
  | discardFailed =>
    obtain ⟨ownerUid, -, rfl⟩ := Option.map_eq_some_iff.mp hs
    exact hw.start rfl (fun _ h => by cases h) fun _ _ => trivial
  | advance i reply =>
    obtain ⟨c, hc, rfl⟩ := Option.map_eq_some_iff.mp hs
    obtain ⟨hmem, rfl⟩ := mem_of_call hc
    exact hw.advance hmem (hw.callStep hmem fun j r hq he =>
      hf (List.mem_filterMap.mpr ⟨_, hq, congrArg some he⟩))
  | fail i =>
    obtain ⟨c, hc, rfl⟩ := Option.map_eq_some_iff.mp hs
    obtain ⟨hmem, rfl⟩ := mem_of_call hc
    have hs : Stepped w c (w, none) := hw.code fun _ h => by cases h
    exact hw.advance hmem hs
  | replaceRooms ownerUid rooms =>
    cases hs
    exact ⟨hw.kept.subset fun r hr => (mem_removeRooms.mp hr).1, hw.calls, hw.alone, hw.past⟩
  | removeRooms ownerUid roomIds =>
    cases hs
    exact ⟨hw.kept.subset fun r hr => (mem_removeRooms.mp hr).1, hw.calls, hw.alone, hw.past⟩
  | purge ownerUid =>
    cases hs
    exact ⟨hw.kept.subset fun r hr => (mem_purge.mp hr).1, hw.calls, hw.alone, hw.past⟩

lemma WorldKept.initial : WorldKept initial where
  kept := ⟨fun _ h => (by cases h), fun _ _ _ _ h => (by cases h), fun _ _ _ _ _ h => (by cases h),
    fun _ _ h => (by cases h), fun _ _ _ _ _ _ _ _ _ _ _ h => (by cases h)⟩
  calls _ h := by cases h
  alone := .nil
  past _ h := by cases h

/-! ### Removed rows -/

/-- A row that an update does not delete is still there. -/
lemma still_update {id : ℕ} {f : Row → Row} (hf : ∀ r, (f r).id = r.id)
    (hr : r ∈ db.mutationOutbox) : ∃ x ∈ (db.update ownerUid id f).mutationOutbox, x.id = r.id := by
  refine ⟨_, List.mem_map_of_mem hr, ?_⟩
  split
  · exact hf r
  · rfl

/-- **A call removes a row for a reason.** -/
lemma WorldKept.removable (hw : WorldKept w) (hc : w.call i = some c)
    (hr : r ∈ w.database.mutationOutbox)
    (hgone : ∀ x ∈ (w.callStep v reply i c.ownerUid c.point).1.database.mutationOutbox, x.id ≠ r.id) :
    Removable v w r (.advance i reply) := by
  have hkept : (w.callStep v reply i c.ownerUid c.point).1.database.mutationOutbox =
      w.database.mutationOutbox → Removable v w r (.advance i reply) := fun he =>
    absurd rfl (hgone r (he ▸ hr))
  obtain ⟨hmem, rfl⟩ := mem_of_call hc
  have hreached := (hw.calls c hmem).2.reached
  obtain ⟨id, ownerUid, point⟩ := c
  have hid : ∀ m : Row, (∀ x ∈ (w.database.delete fun r => r.ownerUid = ownerUid && r.id = m.id).mutationOutbox,
      x.id ≠ r.id) → m.id = r.id := by
    intro m hall
    by_contra hne
    exact hall r (mem_delete.mpr ⟨hr, by simp [Ne.symm hne]⟩) rfl
  cases point with
  | row m rest point =>
    cases point with
    | checkingRoom roomId =>
      refine hkept ?_
      simp only [World.callStep, World.rowStep]
      split <;> rfl
    | dropping => exact .roomMissing (hid m hgone ▸ hreached)
    | deleting => exact .accepted (hid m hgone ▸ hreached)
    | failing code =>
      obtain ⟨x, hx, he⟩ := still_update (f := fun r =>
        { r with status := .failed, lastErrorCode := some code }) (fun _ => rfl) hr
      exact absurd he (hgone x hx)
    | postponing attempts retry =>
      obtain ⟨x, hx, he⟩ := still_update (f := fun r =>
        { r with attemptCount := attempts, nextRetryAt := retry,
                 lastErrorCode := some "NETWORK_UNAVAILABLE" }) (fun _ => rfl) hr
      exact absurd he (hgone x hx)
    | _ => exact hkept rfl
  | queueing m =>
    simp only [World.callStep, World.queue] at hgone hkept
    split at hgone
    · split at hgone
      · next database hi =>
        unfold Database.insert at hi
        split at hi
        · cases hi
        · cases hi
          exact absurd rfl (hgone r (List.mem_append_left _ hr))
      · exact absurd rfl (hgone r hr)
    · exact absurd rfl (hgone r hr)
  | discarding =>
    by_cases hd : r.ownerUid = ownerUid ∧ r.status = .failed
    · obtain ⟨rfl, hstatus⟩ := hd
      exact .discarded ((hw.kept.rows r hr).2 hstatus) hc
    · refine absurd rfl (hgone r (mem_delete.mpr ⟨hr, ?_⟩))
      simpa using hd
  | _ => exact hkept rfl

lemma goOn_database {o : Option Point} : (w.goOn c o).database = w.database := by
  cases o <;> rfl

/-- **Every step removes a row for a reason.** -/
lemma WorldKept.removes {e : Event} (hw : WorldKept w) (h : Removes v w e r) :
    Removable v w r e := by
  obtain ⟨w', hs, hr, hgone⟩ := h
  have hkept : w'.database = w.database → Removable v w r e := fun he =>
    absurd rfl (hgone r (he ▸ hr))
  cases e with
  | account uid =>
    cases hs
    exact hkept rfl
  | restart =>
    cases hs
    exact hkept rfl
  | postOrQueue m =>
    obtain ⟨ownerUid, -, hs⟩ := Option.bind_eq_some_iff.mp hs
    obtain ⟨p, -, rfl⟩ := Option.map_eq_some_iff.mp hs
    exact hkept rfl
  | flush now =>
    obtain ⟨ownerUid, -, rfl⟩ := Option.map_eq_some_iff.mp hs
    refine hkept ?_
    split <;> rfl
  | discardFailed =>
    obtain ⟨ownerUid, -, rfl⟩ := Option.map_eq_some_iff.mp hs
    exact hkept rfl
  | advance i reply =>
    obtain ⟨c, hc, rfl⟩ := Option.map_eq_some_iff.mp hs
    rw [goOn_database] at hgone
    exact hw.removable hc hr hgone
  | fail i =>
    obtain ⟨c, -, rfl⟩ := Option.map_eq_some_iff.mp hs
    exact hkept rfl
  | replaceRooms ownerUid rooms =>
    cases hs
    have hnot : r ∉ (w.database.replaceRooms ownerUid v rooms).mutationOutbox :=
      fun hm => hgone r hm rfl
    obtain ⟨rfl, ht⟩ := targets_of_removed hr hnot
    exact .roomVanished ht
  | removeRooms ownerUid roomIds =>
    cases hs
    have hnot : r ∉ (w.database.removeRooms ownerUid v roomIds).mutationOutbox :=
      fun hm => hgone r hm rfl
    obtain ⟨rfl, ht⟩ := targets_of_removed hr hnot
    exact .roomRemoved ht
  | purge ownerUid =>
    cases hs
    have hno : ¬ r.ownerUid ≠ ownerUid := fun hne => hgone r (mem_purge.mpr ⟨hr, hne⟩) rfl
    obtain rfl := not_not.mp hno
    exact .purged

/-- **What a queued mutation can rely on**, whatever happens: it is only sent as its owner's and
under its own key, it goes for a reason, and a flush takes its rows in order. -/
theorem queue_promise {es : List Event} (hf : Meets (Outbox.step v) Fresh initial es)
    (hr : run (Outbox.step v) initial es = some w) : Promise v w := by
  have hw : WorldKept w := run_invariant (fun hw hf hs => hw.step hf hs) WorldKept.initial hf hr
  exact ⟨fun i r hq j user o m a ha hof => (hw.kept.same i r hq j user o m a ha hof).1,
    fun i r hq j user o m a ha hof =>
      congrArg Mutation.idempotencyKey (hw.kept.same i r hq j user o m a ha hof).2,
    fun _ _ h => hw.removes h, hw.kept.order⟩

/-! ### Runs -/

def sampleReading : Reading where
  pathSegments path := some (if path = "/v1/rooms/a/commands" then ["v1", "rooms", "a", "commands"]
    else ["v1", "proposals", "p", "decisions"])

def sampleDecision (idempotencyKey : String) : Mutation where
  mutationType := "CREATE_DECISION"
  path := "/v1/proposals/p/decisions"
  body := []
  idempotencyKey
  roomId := none

def sampleCommand : Mutation where
  mutationType := "CREATE_COMMAND"
  path := "/v1/rooms/a/commands"
  body := []
  idempotencyKey := "third"
  roomId := some "a"

def sampleReply (now newId : ℕ) (answer : Answer) : Reply := ⟨now, now, newId, answer⟩

/-- A mutation is posted without a connection, and queued. -/
def queues (i now newId : ℕ) (m : Mutation) : List Event :=
  .postOrQueue m :: List.replicate 5 (.advance i (sampleReply now newId .connectionError)) ++
    [.advance i (sampleReply now 0 .connectionError)]

/-- Two decisions and a command are queued. The next flush loses the connection over the first
decision and has it back for the second; the first is accepted by the flush after it. -/
def overtaking : List Event :=
  [.account (some 1), .replaceRooms 1 ["a"]] ++ queues 0 100 10 (sampleDecision "first") ++
    queues 1 101 11 (sampleDecision "second") ++
    .flush 110 :: List.replicate 7 (.advance 2 (sampleReply 110 0 .connectionError)) ++
    List.replicate 7 (.advance 2 (sampleReply 120 0 .response)) ++
    .flush 200 :: List.replicate 8 (.advance 3 (sampleReply 200 0 .response)) ++
    queues 4 300 12 sampleCommand

theorem queue_promise_overtaking : ∃ w, run (Outbox.step sampleReading) initial overtaking = some w ∧
    w.calls = [] ∧ Promise sampleReading w := by
  have hrun : (run (Outbox.step sampleReading) initial overtaking).map (·.calls.map (·.id)) =
      some [] := by decide +kernel
  obtain ⟨w, hw, hc⟩ := Option.map_eq_some_iff.mp hrun
  have hf : Meets (Outbox.step sampleReading) Fresh initial overtaking := by decide +kernel
  exact ⟨w, hw, List.map_eq_nil_iff.mp hc, queue_promise hf hw⟩

/-- A row goes only after the server has accepted it or refused it. -/
def RemovedWhenSettled (v : Reading) (w : World) : Prop :=
  ∀ e r, Removes v w e r → Answered w.history r.id fun a => a = .response || a.isRefusal

/-- The mutations of one owner are accepted in the order in which they were queued. -/
def DeliveredInOrder (w : World) : Prop :=
  ∀ l₁ l₂ i j j' r r' user m, w.history = l₁ ++ .attempt i user (some r'.id) m .response :: l₂ →
    [.queued j r, .queued j' r'].Sublist l₁ → r.ownerUid = r'.ownerUid →
    Answered l₂ r.id (· = .response) → Answered l₁ r.id (· = .response)

def sampleRow (now newId : ℕ) (m : Mutation) : Row :=
  World.newRow (sampleReply now newId .connectionError) 1 m

/-- What the run has done before the server accepts the second decision. -/
def lostHistory : List Happening :=
  [.attempt 0 1 none (sampleDecision "first") .connectionError,
    .queued 0 (sampleRow 100 10 (sampleDecision "first")),
    .attempt 1 1 none (sampleDecision "second") .connectionError,
    .queued 1 (sampleRow 101 11 (sampleDecision "second")),
    .attempt 2 1 (some 10) (sampleDecision "first") .connectionError]

/-- What it does after that. -/
def laterHistory : List Happening :=
  [.attempt 3 1 (some 10) (sampleDecision "first") .response,
    .attempt 4 1 none sampleCommand .connectionError, .queued 4 (sampleRow 300 12 sampleCommand)]

theorem not_queue_promise : ∃ w, Meets (Outbox.step sampleReading) Fresh initial overtaking ∧
    run (Outbox.step sampleReading) initial overtaking = some w ∧
    ¬ RemovedWhenSettled sampleReading w ∧ ¬ DeliveredInOrder w := by
  have hf : Meets (Outbox.step sampleReading) Fresh initial overtaking := by decide +kernel
  have hrun : (run (Outbox.step sampleReading) initial overtaking).map
      (fun w => (w.history, w.database.mutationOutbox)) = some (lostHistory ++
        .attempt 2 1 (some 11) (sampleDecision "second") .response :: laterHistory,
        [sampleRow 300 12 sampleCommand]) := rfl
  obtain ⟨w, hw, he⟩ := Option.map_eq_some_iff.mp hrun
  obtain ⟨hh, hrows⟩ := Prod.mk.inj he
  refine ⟨w, hf, hw, fun h => ?_, fun h => ?_⟩
  · have hr : sampleRow 300 12 sampleCommand ∈ w.database.mutationOutbox := by simp [hrows]
    have hgone : ∀ x ∈ (w.database.removeRooms 1 sampleReading ["a"]).mutationOutbox,
        x.id ≠ (sampleRow 300 12 sampleCommand).id := by
      intro x hx
      obtain ⟨hx, ht⟩ := mem_removeRooms.mp hx
      rw [hrows, List.mem_singleton] at hx
      rw [hx] at ht
      exact absurd (ht rfl "a" (by simp)) (by decide +kernel)
    obtain ⟨j, user, m, a, ha, -⟩ := h (.removeRooms 1 ["a"]) _ ⟨_, rfl, hr, hgone⟩
    rw [hh] at ha
    simp [lostHistory, laterHistory, sampleRow, World.newRow, sampleReply] at ha
  · have hq : [Happening.queued 0 (sampleRow 100 10 (sampleDecision "first")),
        .queued 1 (sampleRow 101 11 (sampleDecision "second"))].Sublist lostHistory :=
      .cons _ (.cons_cons _ (.cons _ (.cons_cons _ (.cons _ .slnil))))
    have hlater : Answered laterHistory 10 (· = .response) :=
      ⟨3, 1, _, .response, List.mem_cons_self, by simp⟩
    obtain ⟨j, user, m, a, ha, hacc⟩ := h _ _ 2 0 1 _ _ 1 _ hh hq rfl hlater
    have hresp : a = .response := by simpa using hacc
    simp [lostHistory, hresp, sampleRow, World.newRow, sampleReply] at ha

end MouseKeeper.Mobile.Outbox
