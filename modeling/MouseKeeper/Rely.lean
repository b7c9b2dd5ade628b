import MouseKeeper.ReadCommitted

/-!
A proof rule for transactions under read committed.

A protocol says what is kept true of the committed store and what the others may do to it
while a call holds its locks. A transaction keeps the protocol when, whatever the others do
between its statements, its commit keeps the invariant and is something that every call with
disjoint locks allows. If all requests keep the protocol, every run does.
-/

namespace MouseKeeper.ReadCommitted

variable {Q D L E R : Type}

structure Protocol (D L : Type) where
  inv : D → Prop
  rely : List L → D → D → Prop
  refl : ∀ held d, rely held d d
  trans : ∀ {held a b c}, rely held a b → rely held b c → rely held a c

/-- The condition, asked of every statement and of every commit. -/
def Asked (ok : Cond Q D L E R) (s : State Q D L E R) (e : Event Q E R) : Prop :=
  ∀ i c, (e = .stmt i ∨ ∃ r, e = .commit i r) → s.calls i = some c → ok s.db c

/-- Any number of steps whose statements and commits meet the condition. -/
def AskedRuns (body : Q → Txn D L E R) (ok : Cond Q D L E R) :
    State Q D L E R → State Q D L E R → Prop :=
  Relation.ReflTransGen fun s s' => ∃ e, Step body s e s' ∧ Asked ok s e

/-- What a request may do when it commits: the request, the store before and after, the answer. -/
abbrev Post (Q D R : Type) := Q → D → D → R → Prop

section Keeps

variable (P : Protocol D L) (ok : Cond Q D L E R) (post : Post Q D R) (q : Q)

/-- The commit of the change `f` over `d` by a call that holds the locks. -/
structure Commits (held : List L) (f : D → D) (r : R) (d : D) : Prop where
  inv : P.inv (f d)
  guarantee : ∀ held', List.Disjoint held held' → P.rely held' d (f d)
  post : post q d (f d) r

/-- What is left of a transaction keeps the protocol from `d` on. -/
def Txn.Keeps : Txn D L E R → List L → (D → D) → D → Prop
  | .answer (.error _), _, _, _ => True
  | .answer (.ok r), held, f, d =>
    ∀ d', P.rely held d d' → P.inv d' → ok d' ⟨q, held, f, .answer (.ok r)⟩ →
      Commits P post q held f r d'
  | .stmt locks change next, held, f, d =>
    ∀ d', P.rely held d d' → P.inv d' → ok d' ⟨q, held, f, .stmt locks change next⟩ →
      (next (f d')).Keeps (locks (f d') ++ held) (fun x => change (f d') (f x)) d'

end Keeps

section Rule

variable {body : Q → Txn D L E R} {P : Protocol D L} {ok : Cond Q D L E R} {post : Post Q D R}
  {s s' : State Q D L E R} {e : Event Q E R}

/-- What the others do while the locks are held does not matter. -/
lemma Txn.Keeps.rely {q : Q} {t : Txn D L E R} {held : List L} {f : D → D} {d d' : D}
    (h : t.Keeps P ok post q held f d) (hd : P.rely held d d') :
    t.Keeps P ok post q held f d' := by
  cases t with
  | answer r =>
    cases r with
    | error e => exact True.intro
    | ok r => exact fun x hx => h x (P.trans hd hx)
  | stmt locks change next => exact fun x hx => h x (P.trans hd hx)

/-- The open call keeps the protocol. -/
def Call.Keeps (P : Protocol D L) (ok : Cond Q D L E R) (post : Post Q D R) (d : D)
    (c : Call Q D L E R) : Prop :=
  c.rest.Keeps P ok post c.request c.held c.change d

/-- Every request keeps the protocol. -/
def Kept (body : Q → Txn D L E R) (P : Protocol D L) (ok : Cond Q D L E R) (post : Post Q D R) :
    Prop :=
  ∀ q d, P.inv d → (body q).Keeps P ok post q [] id d

lemma Call.Keeps.commit {c : Call Q D L E R} {d : D} {r : R} (h : c.Keeps P ok post d)
    (hd : P.inv d) (hr : c.rest = .answer (.ok r)) (hok : ok d c) :
    Commits P post c.request c.held c.change r d := by
  obtain ⟨q, held, f, t⟩ := c
  cases hr
  exact h d (P.refl held d) hd hok

/-- **One step keeps the protocol.** -/
theorem Kept.step (hk : Kept body P ok post) (h : Sound P.inv (Call.Keeps P ok post) s)
    (hs : Step body s e s') (hok : Asked ok s e) : Sound P.inv (Call.Keeps P ok post) s' := by
  cases hs with
  | begin i q _ => exact h.set (hk q s.db h.db) fun l hl => by cases hl
  | @stmt i c locks change next hc hr hl =>
    obtain ⟨q, held, f, t⟩ := c
    cases hr
    have hnext := h.call hc s.db (P.refl held s.db) h.db (hok i _ (.inl rfl) hc)
    refine h.set hnext fun l hm => ?_
    rcases List.mem_append.mp hm with hm | hm
    · exact hl l hm
    · exact fun j c' hj hc' => h.apart (Ne.symm hj) hc hc' hm
  | @commit i c r hc hr =>
    have hcommit := (h.call hc).commit h.db hr (hok i c (.inr ⟨r, rfl⟩) hc)
    refine ⟨hcommit.inv, fun hd => ?_, fun hij hi hj =>
      h.apart hij (calls_drop hi).2 (calls_drop hj).2⟩
    obtain ⟨hj, hc'⟩ := calls_drop hd
    exact (h.call hc').rely (hcommit.guarantee _ (h.apart (Ne.symm hj) hc hc'))
  | refuse _ _ => exact h.drop _
  | abort _ => exact h.drop _

/-- **A whole run keeps the protocol.** -/
theorem Kept.run (hk : Kept body P ok post) (h : Sound P.inv (Call.Keeps P ok post) s)
    (hr : AskedRuns body ok s s') : Sound P.inv (Call.Keeps P ok post) s' := by
  induction hr with
  | refl => exact h
  | tail _ hs ih =>
    obtain ⟨e, hs, hok⟩ := hs
    exact hk.step ih hs hok

/-- What a commit did. -/
theorem Kept.commits (hk : Kept body P ok post) (h : Sound P.inv (Call.Keeps P ok post) s)
    {i : ℕ} {r : R} (hs : Step body s (.commit i r) s') (hok : Asked ok s (.commit i r)) :
    ∃ c, s.calls i = some c ∧ P.rely [] s.db s'.db ∧ post c.request s.db s'.db r := by
  cases hs with
  | @commit i c r hc hr =>
    have hcommit := (h.call hc).commit h.db hr (hok i c (.inr ⟨r, rfl⟩) hc)
    exact ⟨c, hc, hcommit.guarantee [] (fun _ _ hl => absurd hl List.not_mem_nil), hcommit.post⟩

/-- **What a run does to the store** is what a call without locks relies on. -/
theorem Kept.run_rely (hk : Kept body P ok post) (h : Sound P.inv (Call.Keeps P ok post) s)
    (hr : AskedRuns body ok s s') : P.rely [] s.db s'.db := by
  induction hr with
  | refl => exact P.refl [] _
  | @tail b c hb hs ih =>
    obtain ⟨e, hs, hok⟩ := hs
    have hb := hk.run h hb
    refine P.trans ih ?_
    cases e with
    | commit i r =>
      obtain ⟨-, -, hrely, -⟩ := hk.commits hb hs hok
      exact hrely
    | begin | stmt | refuse | abort =>
      cases hs
      exact P.refl [] _

end Rule

/-! ### Refusals -/

/-- Why a request is refused: the request, the store and the code. -/
abbrev Reason (Q D E : Type) := Q → D → E → Prop

section Refuses

variable (P : Protocol D L) (ok : Cond Q D L E R) (why : Reason Q D E) (q : Q)

/-- What is left of a transaction refuses only for a reason that holds at that point. -/
def Txn.Refuses : Txn D L E R → List L → (D → D) → D → Prop
  | .answer (.error e), held, _, d => ∀ d', P.rely held d d' → P.inv d' → why q d' e
  | .answer (.ok _), _, _, _ => True
  | .stmt locks change next, held, f, d =>
    ∀ d', P.rely held d d' → P.inv d' → ok d' ⟨q, held, f, .stmt locks change next⟩ →
      (next (f d')).Refuses (locks (f d') ++ held) (fun x => change (f d') (f x)) d'

def Call.Refuses (d : D) (c : Call Q D L E R) : Prop :=
  c.rest.Refuses P ok why c.request c.held c.change d

end Refuses

section Refused

variable {body : Q → Txn D L E R} {P : Protocol D L} {ok : Cond Q D L E R} {post : Post Q D R}
  {why : Reason Q D E} {s s' : State Q D L E R} {e : Event Q E R}

lemma Txn.Refuses.rely {q : Q} {t : Txn D L E R} {held : List L} {f : D → D} {d d' : D}
    (h : t.Refuses P ok why q held f d) (hd : P.rely held d d') :
    t.Refuses P ok why q held f d' := by
  cases t with
  | answer r =>
    cases r with
    | error e => exact fun x hx => h x (P.trans hd hx)
    | ok r => exact True.intro
  | stmt locks change next => exact fun x hx => h x (P.trans hd hx)

/-- Every request is refused only for a reason. -/
def Refused (body : Q → Txn D L E R) (P : Protocol D L) (ok : Cond Q D L E R)
    (why : Reason Q D E) : Prop :=
  ∀ q d, P.inv d → (body q).Refuses P ok why q [] id d

lemma Refused.step (hw : Refused body P ok why)
    (h : Sound P.inv (Call.Keeps P ok post) s) (h' : Sound P.inv (Call.Refuses P ok why) s)
    (hs : Step body s e s') (hok : Asked ok s e) : Sound P.inv (Call.Refuses P ok why) s' := by
  cases hs with
  | begin i q _ => exact h'.set (hw q s.db h.db) fun l hl => by cases hl
  | @stmt i c locks change next hc hr hl =>
    obtain ⟨q, held, f, t⟩ := c
    cases hr
    have hnext := h'.call hc s.db (P.refl held s.db) h.db (hok i _ (.inl rfl) hc)
    refine h'.set hnext fun l hm => ?_
    rcases List.mem_append.mp hm with hm | hm
    · exact hl l hm
    · exact fun j c' hj hc' => h.apart (Ne.symm hj) hc hc' hm
  | @commit i c r hc hr =>
    have hcommit := (h.call hc).commit h.db hr (hok i c (.inr ⟨r, rfl⟩) hc)
    refine ⟨hcommit.inv, fun hd => ?_, fun hij hi hj =>
      h.apart hij (calls_drop hi).2 (calls_drop hj).2⟩
    obtain ⟨hj, hc'⟩ := calls_drop hd
    exact (h'.call hc').rely (hcommit.guarantee _ (h.apart (Ne.symm hj) hc hc'))
  | refuse _ _ => exact h'.drop _
  | abort _ => exact h'.drop _

/-- **Throughout a run, requests are refused only for a reason.** -/
theorem Refused.run (hw : Refused body P ok why) (hk : Kept body P ok post)
    (h : Sound P.inv (Call.Keeps P ok post) s) (h' : Sound P.inv (Call.Refuses P ok why) s)
    (hr : AskedRuns body ok s s') : Sound P.inv (Call.Refuses P ok why) s' := by
  induction hr with
  | refl => exact h'
  | tail hb hs ih =>
    obtain ⟨e, hs, hok⟩ := hs
    exact hw.step (hk.run h hb) ih hs hok

/-- The reason of a refusal. -/
theorem Refused.reason {i : ℕ} {code : E} (h : Sound P.inv (Call.Refuses P ok why) s)
    (hs : Step body s (.refuse i code) s') :
    ∃ c, s.calls i = some c ∧ why c.request s.db code := by
  cases hs with
  | @refuse i c code hc hr =>
    obtain ⟨q, held, f, t⟩ := c
    cases hr
    exact ⟨_, hc, h.call hc s.db (P.refl held s.db) h.db⟩

end Refused

/-- A request served with no other open is a run, where the condition asks nothing of it. -/
theorem askedRuns_alone {body : Q → Txn D L E R} {ok : Cond Q D L E R} (q : Q) (d : D)
    (h : ∀ c : Call Q D L E R, c.request = q → ok d c) :
    AskedRuns body ok (.quiet d) (.quiet ((body q).alone id d)) := by
  have hl : Lifts body q d (fun s s' => ∃ e, Step body s e s' ∧ Asked ok s e) fun s _ => s :=
    fun l hs hd hc _ => ⟨_, hs, fun i c _ hi => hd ▸ h c (hc i c hi)⟩
  exact hl.alone []

end MouseKeeper.ReadCommitted
