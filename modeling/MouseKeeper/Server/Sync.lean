import Mathlib.Data.List.Range
import Mathlib.Data.List.Sort
import MouseKeeper.ReadCommitted

/-!
The numbering of sync events.

`append` takes an advisory lock on the hash of the user id, reads the largest sequence of
the user and inserts a row with the next one, inside a transaction of its caller. Clients
page through `replay` with the last sequence they have seen.
-/

namespace MouseKeeper.Server.Sync

open MouseKeeper.ReadCommitted

variable {U H P : Type} [DecidableEq U]

/-- A row of `sync_events`; the columns nobody orders or searches by are one payload. -/
structure SyncEvent (U P : Type) where
  user : U
  sequence : ℕ
  payload : P
  deriving DecidableEq

/-- The rows in the order in which they became visible. -/
abbrev Table (U P : Type) := List (SyncEvent U P)

/-- The sequences of a user, in table order. -/
def sequences (d : Table U P) (u : U) : List ℕ := (d.filter (·.user = u)).map (·.sequence)

/-- `max(sequence)`, or 0 when the user has no event. -/
def latest (d : Table U P) (u : U) : ℕ := (sequences d u).foldr max 0

section Append

variable {E R : Type} (hashtext : U → H)

/-- The insert that ends `append`. -/
def insertNext (n : ℕ) (u : U) (p : P) (next : SyncEvent U P → Txn (Table U P) H E R) :
    Txn (Table U P) H E R :=
  .write (fun _ => []) (fun _ d => d ++ [⟨u, n + 1, p⟩]) (next ⟨u, n + 1, p⟩)

/-- `append` once the lock is held. -/
def readLatest (u : U) (p : P) (next : SyncEvent U P → Txn (Table U P) H E R) :
    Txn (Table U P) H E R :=
  .read fun d => insertNext (latest d u) u p next

def append (u : U) (p : P) (next : SyncEvent U P → Txn (Table U P) H E R) :
    Txn (Table U P) H E R :=
  .lock (fun _ => [hashtext u]) fun _ => readLatest u p next

/-- A transaction as this table sees it: appends, each chosen after the ones before it, and
a commit or a rollback. -/
inductive Caller (U P : Type) where
  | finish (commit : Bool)
  | append (u : U) (p : P) (next : SyncEvent U P → Caller U P)

def body : Caller U P → Txn (Table U P) H Unit Unit
  | .finish true => .answer (.ok ())
  | .finish false => .answer (.error ())
  | .append u p next => Sync.append hashtext u p fun e => body (next e)

end Append

/-- The next page for a client that has seen everything up to `after`. -/
def replay (d : Table U P) (u : U) (after limit : ℕ) : List (SyncEvent U P) :=
  ((d.filter fun e => e.user = u ∧ after < e.sequence).mergeSort
    (·.sequence ≤ ·.sequence)).take limit

/-! ### The numbering -/

/-- Every user's events are numbered from 1 in table order. -/
def Numbered (d : Table U P) : Prop :=
  ∀ u, sequences d u = List.range' 1 (sequences d u).length

lemma sequences_append (d d' : Table U P) (u : U) :
    sequences (d ++ d') u = sequences d u ++ sequences d' u := by
  simp [sequences]

lemma sequences_absent {d : Table U P} {u : U} (h : ∀ e ∈ d, e.user ≠ u) :
    sequences d u = [] := by
  rw [sequences, List.map_eq_nil_iff, List.filter_eq_nil_iff]
  exact fun e he => by simpa using h e he

lemma foldr_max_range' (n : ℕ) : (List.range' 1 n).foldr max 0 = n := by
  induction n with
  | zero => rfl
  | succ n ih =>
    have h : ∀ (l : List ℕ) (a : ℕ), l.foldr max a = max (l.foldr max 0) a := by
      intro l a
      induction l with
      | nil => simp
      | cons x l ihl => rw [List.foldr_cons, List.foldr_cons, ihl, max_assoc]
    rw [List.range'_1_concat, List.foldr_append, h, ih]
    simp [Nat.add_comm]

lemma latest_eq {d : Table U P} {u : U} (h : Numbered d) :
    latest d u = (sequences d u).length := by
  rw [latest, h u, foldr_max_range', List.length_range']

lemma Numbered.nil : Numbered ([] : Table U P) := fun _ => rfl

/-- The next number after the largest keeps the numbering. -/
lemma Numbered.snoc {d : Table U P} (h : Numbered d) (u : U) (p : P) :
    Numbered (d ++ [⟨u, latest d u + 1, p⟩]) := by
  intro v
  rw [sequences_append, List.length_append]
  by_cases hv : u = v
  · subst hv
    have hs : sequences [(⟨u, latest d u + 1, p⟩ : SyncEvent U P)] u = [latest d u + 1] := by
      simp [sequences]
    rw [hs, latest_eq h, List.length_singleton, List.range'_1_concat, ← h u, Nat.add_comm 1]
  · have hs : sequences [(⟨u, latest d u + 1, p⟩ : SyncEvent U P)] v = [] :=
      sequences_absent fun e he => by rw [List.mem_singleton.mp he]; exact hv
    rw [hs, List.append_nil, List.length_nil, Nat.add_zero]
    exact h v

/-! ### Any number of writers -/

section Writers

variable (hashtext : U → H)

/-- Where a call stands in its program; from the lock on, it holds the lock of the user it
is about to append for. -/
inductive At (held : List H) (d : Table U P) : Txn (Table U P) H Unit Unit → Prop
  | caller (k : Caller U P) : At held d (body hashtext k)
  | locked (u : U) (p : P) (k : SyncEvent U P → Caller U P) (h : hashtext u ∈ held) :
    At held d (readLatest u p fun e => body hashtext (k e))
  | numbered (u : U) (p : P) (k : SyncEvent U P → Caller U P) (h : hashtext u ∈ held) :
    At held d (insertNext (latest d u) u p fun e => body hashtext (k e))

/-- An open call has rows of its own behind the committed ones, holds the locks of their
users, and sees a numbered table. -/
structure Assertion (d : Table U P) (c : Call (Caller U P) (Table U P) H Unit Unit) :
    Prop where
  rows : ∃ own, c.change = (· ++ own) ∧ ∀ e ∈ own, hashtext e.user ∈ c.held
  numbered : Numbered (c.view d)
  place : At hashtext c.held (c.view d) c.rest

variable {hashtext}

/-- A commit under other locks does not touch the users a call works for. -/
lemma sequences_commit {d own own' : Table U P} {held held' : List H} {u : U}
    (hown : ∀ e ∈ own, hashtext e.user ∈ held) (hd : List.Disjoint held held')
    (hu : hashtext u ∈ held') : sequences (d ++ own ++ own') u = sequences (d ++ own') u := by
  have h : sequences own u = [] := sequences_absent fun e he heq =>
    hd (hown e he) (by rw [heq]; exact hu)
  simp only [sequences_append, h, List.append_nil]

lemma latest_congr {d d' : Table U P} {u : U} (h : sequences d u = sequences d' u) :
    latest d u = latest d' u := by
  rw [latest, latest, h]

lemma At.stable {held held' : List H} {d own own' : Table U P}
    {t : Txn (Table U P) H Unit Unit} (hown : ∀ e ∈ own, hashtext e.user ∈ held)
    (hd : List.Disjoint held held') (h : At hashtext held' (d ++ own') t) :
    At hashtext held' (d ++ own ++ own') t := by
  cases h with
  | caller k => exact .caller k
  | locked u p k hu => exact .locked u p k hu
  | numbered u p k hu =>
    have hl : latest (d ++ own ++ own') u = latest (d ++ own') u :=
      latest_congr (sequences_commit hown hd hu)
    rw [← hl]
    exact .numbered u p k hu

/-- One statement of a call keeps its assertion. -/
lemma Assertion.advance {d : Table U P} {c : Call (Caller U P) (Table U P) H Unit Unit}
    {locks change next} (h : Assertion hashtext d c) (hr : c.rest = .stmt locks change next) :
    Assertion hashtext d (c.advance d locks change next) := by
  obtain ⟨⟨own, hc, hown⟩, hn, hat⟩ := h
  rw [hr] at hat
  generalize ht : Txn.stmt locks change next = t at hat
  cases hat with
  | caller k =>
    cases k with
    | finish b => cases b <;> cases ht
    | append u p k =>
      cases ht
      refine ⟨⟨own, hc, fun e he => ?_⟩, hn, .locked u p k ?_⟩
      · exact List.mem_append_right _ (hown e he)
      · exact List.mem_append_left _ (List.mem_singleton_self _)
  | locked u p k hu =>
    cases ht
    exact ⟨⟨own, hc, hown⟩, hn, .numbered u p k hu⟩
  | numbered u p k hu =>
    cases ht
    refine ⟨⟨own ++ [⟨u, latest (c.view d) u + 1, p⟩], ?_, fun e he => ?_⟩,
      hn.snoc u p, .caller (k _)⟩
    · funext d'
      simp [Call.advance, hc]
    · rcases List.mem_append.mp he with he | he
      · exact hown e he
      · rw [List.mem_singleton.mp he]
        exact hu

theorem rules : Rules (body hashtext (P := P)) always Numbered (Assertion hashtext) where
  start q hn := ⟨⟨[], by funext d; simp [Call.start], by simp⟩, hn, .caller q⟩
  stmt _ h _ hr := h.advance hr
  commit _ h _ := h.numbered
  stable {d c c' r} hd h _ h' hdis := by
    obtain ⟨⟨own, hc, hown⟩, hn, -⟩ := h
    obtain ⟨⟨own', hc', hown'⟩, hn', hat'⟩ := h'
    simp only [Call.view, hc, hc'] at hn hn' hat' ⊢
    refine ⟨⟨own', hc', hown'⟩, fun u => ?_, ?_⟩
    · simp only [Call.view, hc']
      -- of two open calls, at most one has rows of the user
      by_cases hu : ∃ e ∈ own', e.user = u
      · obtain ⟨e, he, rfl⟩ := hu
        rw [sequences_commit hown hdis (hown' e he)]
        exact hn' e.user
      · push Not at hu
        rw [sequences_append _ own', sequences_absent hu, List.append_nil]
        exact hn u
    · simp only [Call.view, hc']
      exact hat'.stable hown hdis

end Writers

/-! ### A client that polls -/

/-- The events of a user, in table order. -/
def eventsOf (d : Table U P) (u : U) : List (SyncEvent U P) := d.filter (·.user = u)

/-- A client of one user: the last sequence it has seen, and what it has received. -/
structure Client (U P : Type) where
  cursor : ℕ
  seen : List (SyncEvent U P)
  deriving DecidableEq

/-- One request for the next page, answered from what is committed at that moment. -/
def Client.poll (c : Client U P) (d : Table U P) (u : U) (limit : ℕ) : Client U P :=
  let page := replay d u c.cursor limit
  ⟨(page.getLast?.map (·.sequence)).getD c.cursor, c.seen ++ page⟩

section Lists

variable {α : Type} {f : α → ℕ}

lemma lt_of_numbered {l : List α} {s : ℕ} (h : l.map f = List.range' (s + 1) l.length)
    {x : α} (hx : x ∈ l) : s < f x := by
  have hm : f x ∈ l.map f := List.mem_map_of_mem hx
  rw [h] at hm
  have := List.left_le_of_mem_range' hm
  omega

/-- In a numbered list, the numbers up to `c` are those of the first `c` elements. -/
lemma filter_le_of_numbered {l : List α} {s c : ℕ}
    (h : l.map f = List.range' (s + 1) l.length) :
    l.filter (fun x => f x ≤ s + c) = l.take c := by
  induction l generalizing s c with
  | nil => simp
  | cons x l ih =>
    cases c with
    | zero =>
      rw [List.take_zero, List.filter_eq_nil_iff]
      intro y hy
      have := lt_of_numbered h hy
      simp only [decide_eq_true_eq]
      omega
    | succ c =>
      simp only [List.map_cons, List.length_cons, List.range'_succ, List.cons.injEq] at h
      obtain ⟨hx, hl⟩ := h
      have hc : s + (c + 1) = s + 1 + c := by omega
      rw [List.filter_cons_of_pos (by simp [hx]), List.take_succ_cons, hc,
        ih (s := s + 1) hl]

lemma filter_gt_of_numbered {l : List α} {s c : ℕ}
    (h : l.map f = List.range' (s + 1) l.length) :
    l.filter (fun x => s + c < f x) = l.drop c := by
  induction l generalizing s c with
  | nil => simp
  | cons x l ih =>
    cases c with
    | zero =>
      rw [List.drop_zero, List.filter_eq_self]
      intro y hy
      simpa using lt_of_numbered h hy
    | succ c =>
      simp only [List.map_cons, List.length_cons, List.range'_succ, List.cons.injEq] at h
      obtain ⟨hx, hl⟩ := h
      have hc : s + (c + 1) = s + 1 + c := by omega
      rw [List.filter_cons_of_neg (by simp [hx]), List.drop_succ_cons, hc,
        ih (s := s + 1) hl]

lemma pairwise_of_numbered {l : List α} {s : ℕ}
    (h : l.map f = List.range' (s + 1) l.length) : l.Pairwise (f · ≤ f ·) := by
  have hp : (l.map f).Pairwise (· ≤ ·) := by
    rw [h]
    exact List.pairwise_le_range'
  exact List.pairwise_map.mp hp

end Lists

lemma numbered_events {d : Table U P} (h : Numbered d) (u : U) :
    (eventsOf d u).map (·.sequence) = List.range' (0 + 1) (eventsOf d u).length := by
  have hu := h u
  rw [sequences, List.length_map] at hu
  exact hu

lemma filter_events (d : Table U P) (u : U) (q : SyncEvent U P → Bool) :
    d.filter (fun e => e.user = u ∧ q e) = (eventsOf d u).filter q := by
  rw [eventsOf, List.filter_filter]
  refine List.filter_congr fun e _ => ?_
  simp [Bool.and_comm]

/-- **A page is the next stretch of the user's events.** -/
theorem replay_eq {d : Table U P} (h : Numbered d) (u : U) (after limit : ℕ) :
    replay d u after limit = ((eventsOf d u).drop after).take limit := by
  have hn := numbered_events h u
  have hf : d.filter (fun e => e.user = u ∧ after < e.sequence) =
      (eventsOf d u).drop after := by
    rw [← filter_gt_of_numbered hn, ← filter_events]
    simp
  rw [replay, hf, List.mergeSort_of_pairwise]
  exact (List.Pairwise.drop (pairwise_of_numbered hn)).imp fun hab => by simpa using hab

lemma take_range'_eq_min (s n k : ℕ) :
    (List.range' s n).take k = List.range' s (min k n) := by
  rcases Nat.le_total n k with h | h
  · rw [List.take_range'_of_length_le h, Nat.min_eq_right h]
  · rw [List.take_range'_of_length_ge h, Nat.min_eq_left h]

lemma replay_sequences {d : Table U P} (h : Numbered d) (u : U) (after limit : ℕ) :
    (replay d u after limit).map (·.sequence) =
      List.range' (after + 1) (min limit ((eventsOf d u).length - after)) := by
  rw [replay_eq h, List.map_take, List.map_drop, numbered_events h, List.drop_range',
    take_range'_eq_min, Nat.mul_one, Nat.zero_add, Nat.add_comm 1]

/-- A client that has received the first `cursor` events. -/
structure Client.UpTo (c : Client U P) (d : Table U P) (u : U) : Prop where
  seen : c.seen = (eventsOf d u).take c.cursor
  bound : c.cursor ≤ (eventsOf d u).length

/-- A poll moves the cursor by the size of the page. -/
lemma Client.poll_cursor {c : Client U P} {d : Table U P} {u : U} (hn : Numbered d)
    (limit : ℕ) : (c.poll d u limit).cursor =
      c.cursor + min limit ((eventsOf d u).length - c.cursor) := by
  have hs := replay_sequences hn u c.cursor limit
  rw [Client.poll, ← List.getLast?_map, hs, List.getLast?_range']
  split <;> simp <;> omega

lemma Client.UpTo.poll {c : Client U P} {d : Table U P} {u : U} (h : c.UpTo d u)
    (hn : Numbered d) (limit : ℕ) : (c.poll d u limit).UpTo d u := by
  have hb := h.bound
  constructor
  · rw [poll_cursor hn, List.take_add, ← h.seen, Client.poll, replay_eq hn]
    rcases Nat.le_total limit ((eventsOf d u).length - c.cursor) with hl | hl
    · rw [Nat.min_eq_left hl]
    · rw [Nat.min_eq_right hl, List.take_of_length_le (i := limit) (by simpa using hl),
        List.take_of_length_le (i := _ - _) (by simp)]
  · rw [poll_cursor hn]
    omega

lemma Client.UpTo.mono {c : Client U P} {d d' : Table U P} {u : U} (h : c.UpTo d u)
    (hd : d <+: d') : c.UpTo d' u := by
  obtain ⟨d', rfl⟩ := hd
  have hb := h.bound
  have he : eventsOf (d ++ d') u = eventsOf d u ++ eventsOf d' u := by
    simp [eventsOf]
  constructor
  · rw [he, List.take_append_of_le_length hb, h.seen]
  · rw [he, List.length_append]
    omega

lemma Client.UpTo.seen_eq {c : Client U P} {d : Table U P} {u : U} (h : c.UpTo d u)
    (hn : Numbered d) :
    c.seen = d.filter fun e => e.user = u ∧ e.sequence ≤ c.cursor := by
  have hf := filter_le_of_numbered (c := c.cursor) (numbered_events hn u)
  rw [h.seen, ← hf, ← filter_events]
  simp

/-! ### Writers and a polling client together -/

section System

variable (hashtext : U → H) (u : U)

/-- The server with its open transactions, and the client. -/
abbrev World (U H P : Type) := State (Caller U P) (Table U P) H Unit Unit × Client U P

/-- A step of some transaction, or a poll between two such steps. -/
inductive Move : World U H P → World U H P → Prop
  | server {s s' : State (Caller U P) (Table U P) H Unit Unit} {e} {c : Client U P}
    (h : Step (body hashtext) s e s') : Move (s, c) (s', c)
  | poll {s : State (Caller U P) (Table U P) H Unit Unit} {c : Client U P} (limit : ℕ) :
    Move (s, c) (s, c.poll s.db u limit)

/-- Nothing is stored, nothing is open and the client has seen nothing. -/
def World.initial : World U H P := (.quiet [], ⟨0, []⟩)

variable {hashtext u}

lemma step_sound {s s' : State (Caller U P) (Table U P) H Unit Unit} {e}
    (h : Sound Numbered (Assertion hashtext) s) (hs : Step (body hashtext) s e s') :
    Sound Numbered (Assertion hashtext) s' ∧ s.db <+: s'.db := by
  refine ⟨rules.step h hs fun _ _ _ _ => trivial, ?_⟩
  cases hs with
  | commit hc hr =>
    obtain ⟨own, hown, -⟩ := (h.call hc).rows
    exact ⟨own, by simp [Call.view, hown]⟩
  | begin | stmt | refuse | abort => exact List.prefix_rfl

lemma moves_sound {w w' : World U H P} (h : Sound Numbered (Assertion hashtext) w.1)
    (hc : w.2.UpTo w.1.db u) (hr : Relation.ReflTransGen (Move hashtext u) w w') :
    Sound Numbered (Assertion hashtext) w'.1 ∧ w'.2.UpTo w'.1.db u ∧ w.1.db <+: w'.1.db := by
  induction hr with
  | refl => exact ⟨h, hc, List.prefix_rfl⟩
  | tail _ hs ih =>
    obtain ⟨h, hc, hp⟩ := ih
    cases hs with
    | server hs =>
      obtain ⟨h', hp'⟩ := step_sound h hs
      exact ⟨h', hc.mono hp', hp.trans hp'⟩
    | poll limit => exact ⟨h, hc.poll h.db limit, hp⟩

/-- **The events of every user are numbered 1, 2, … and a polling client misses none**: in
every order of any number of transactions and polls, what becomes visible later comes
behind what was visible, and the client has exactly the committed events up to its cursor,
which the next poll moves on by a full page or to the last event. -/
theorem replay_complete {w w' : World U H P}
    (h : Relation.ReflTransGen (Move hashtext u) World.initial w)
    (h' : Relation.ReflTransGen (Move hashtext u) w w') :
    (∀ v, sequences w.1.db v = List.range' 1 (sequences w.1.db v).length) ∧
    w.1.db <+: w'.1.db ∧
    w.2.seen = w.1.db.filter (fun e => e.user = u ∧ e.sequence ≤ w.2.cursor) ∧
    ∀ limit, (w.2.poll w.1.db u limit).cursor =
      w.2.cursor + min limit ((sequences w.1.db u).length - w.2.cursor) := by
  obtain ⟨hs, hc, -⟩ := moves_sound (u := u) (Sound.quiet Numbered.nil) ⟨rfl, Nat.zero_le _⟩ h
  obtain ⟨-, -, hp⟩ := moves_sound hs hc h'
  refine ⟨hs.db, hp, hc.seen_eq hs.db, fun limit => ?_⟩
  rw [Client.poll_cursor hs.db, sequences, List.length_map, eventsOf]

lemma moves_of_runs {s s' : State (Caller U P) (Table U P) H Unit Unit} (c : Client U P)
    (h : Runs (body hashtext) always s s') :
    Relation.ReflTransGen (Move hashtext u) (s, c) (s', c) :=
  h.lift (fun s => (s, c)) fun _ _ ⟨_, hs, _⟩ => .server hs

/-- Two appends for one user in one transaction, a poll, and a poll that finds no more. -/
theorem replay_complete_sample :
    let q : Caller ℕ Bool := .append 1 true fun _ => .append 1 false fun _ => .finish true
    let d := (body id q : Txn _ ℕ _ _).alone id []
    let c := (Client.poll ⟨0, []⟩ d 1 200).poll d 1 200
    (∀ v, sequences d v = List.range' 1 (sequences d v).length) ∧ d <+: d ∧
    c.seen = d.filter (fun e => e.user = 1 ∧ e.sequence ≤ c.cursor) ∧
    ∀ limit, (c.poll d 1 limit).cursor =
      c.cursor + min limit ((sequences d 1).length - c.cursor) := by
  intro q d c
  have hr := moves_of_runs (u := 1) ⟨0, []⟩
    (runs_alone_of (L := ℕ) (body id) q [] fun _ _ => trivial)
  have h : Relation.ReflTransGen (Move id 1) World.initial (State.quiet (L := ℕ) d, c) :=
    .tail (.tail hr (.poll 200)) (.poll 200)
  exact replay_complete h .refl

end System

end MouseKeeper.Server.Sync
