import MouseKeeper.Machine

/-!
A client and its server over a network that loses requests and answers.

The client makes one call after the other. A call looks at its surroundings and changes them, puts
reports into an outbox, and asks the server. A request that is lost may have been served all the
same. What the client makes of a lost request is up to the call.

A call is patient with a request if it simply ends when the request is lost. Runs in which only
such requests are lost have the outcomes of runs in which none is.
-/

namespace MouseKeeper.Faults

open MouseKeeper.Machine

/-- A call of the client. -/
inductive Call (σ ρ α κ : Type)
  | done
  | read (next : σ → Call σ ρ α κ)
  /-- The surroundings as they were before the change are known afterwards. -/
  | write (change : σ → σ) (next : σ → Call σ ρ α κ)
  | report (k : κ) (next : Call σ ρ α κ)
  | ask (r : ρ) (next : α → Call σ ρ α κ)

/-- The call that the client makes, what the server does with requests and reports, and what else
may happen. -/
structure System (σ τ ρ α κ φ ω : Type) where
  main : Call σ ρ α κ
  serve : ρ → τ → α × τ
  /-- What the client takes for the answer to a request that is lost. -/
  lost : φ → α
  deliver : κ → τ → τ
  /-- A report is stored once. -/
  same : κ → κ → Bool
  outside : ω → σ × τ → σ × τ

/-- The outbox has the reports with whether they are still to be delivered. -/
structure State (σ τ ρ α κ ω : Type) where
  world : σ
  server : τ
  rows : List (κ × Bool)
  call : Call σ ρ α κ
  /-- The call has changed its surroundings. -/
  wrote : Bool
  log : List ω

inductive Event (φ ω : Type)
  | outside (o : ω)
  | start
  | go
  | answer
  | lose (f : φ) (served : Bool)
  | deliver (row : ℕ)
  /-- The report is kept, or given up. -/
  | undelivered (row : ℕ) (served kept : Bool)

def Event.faultless {φ ω : Type} : Event φ ω → Bool
  | .lose _ _ | .undelivered _ _ _ => false
  | _ => true

variable {σ τ ρ α κ φ ω : Type}

def State.init (world : σ) (server : τ) : State σ τ ρ α κ ω where
  world := world
  server := server
  rows := []
  call := .done
  wrote := false
  log := []

namespace System

variable (sys : System σ τ ρ α κ φ ω)

def enqueue (k : κ) (rows : List (κ × Bool)) : List (κ × Bool) :=
  if rows.any fun row => sys.same row.1 k then rows else rows ++ [(k, true)]

/-- What becomes of the server with a request or a report that has perhaps been served. -/
def reached (served : Bool) (t t' : τ) : τ := if served then t' else t

def step (s : State σ τ ρ α κ ω) : Event φ ω → Option (State σ τ ρ α κ ω)
  | .outside o => some { s with
      world := (sys.outside o (s.world, s.server)).1
      server := (sys.outside o (s.world, s.server)).2
      log := s.log ++ [o] }
  | .start =>
    match s.call with
    | .done => some { s with call := sys.main, wrote := false }
    | _ => none
  | .go =>
    match s.call with
    | .read next => some { s with call := next s.world }
    | .write change next => some { s with
        world := change s.world, call := next s.world, wrote := true }
    | .report k next => some { s with rows := sys.enqueue k s.rows, call := next }
    | _ => none
  | .answer =>
    match s.call with
    | .ask r next => some { s with
        server := (sys.serve r s.server).2, call := next (sys.serve r s.server).1 }
    | _ => none
  | .lose f served =>
    match s.call with
    | .ask r next => some { s with
        server := reached served s.server (sys.serve r s.server).2, call := next (sys.lost f) }
    | _ => none
  | .deliver i =>
    match s.rows[i]? with
    | some (k, true) => some { s with
        server := sys.deliver k s.server, rows := s.rows.set i (k, false) }
    | _ => none
  | .undelivered i served kept =>
    match s.rows[i]? with
    | some (k, true) => some { s with
        server := reached served s.server (sys.deliver k s.server), rows := s.rows.set i (k, kept) }
    | _ => none

/-- What the run has come to, some run without faults could have come to, with the same things
happening outside. -/
def OnlyDelayed (init s : State σ τ ρ α κ ω) : Prop :=
  ∃ es t, (∀ e ∈ es, e.faultless = true) ∧ run sys.step init es = some t ∧ t.log = s.log ∧
    t.world = s.world ∧ t.server = s.server ∧ t.rows.map Prod.fst = s.rows.map Prod.fst

/-! ### Patience -/

variable (patient : ρ → φ → Prop) (Gone : τ → Prop) (Settled : κ → τ → Prop)

/-- The requests that the call makes are such that it has no patience with them. -/
def Impatient : Call σ ρ α κ → Prop
  | .done => True
  | .read next => ∀ x, Impatient (next x)
  | .write _ next => ∀ x, Impatient (next x)
  | .report _ next => Impatient next
  | .ask r next => (∀ f, ¬ patient r f) ∧ ∀ a, Impatient (next a)

/-- The call ends when a request it has patience with is lost. -/
def GivesUp : Call σ ρ α κ → Prop
  | .done => True
  | .read next => ∀ x, GivesUp (next x)
  | .write _ next => ∀ x, GivesUp (next x)
  | .report _ next => GivesUp next
  | .ask r next => (∀ f, patient r f → next (sys.lost f) = .done) ∧ ∀ a, GivesUp (next a)

/-- It also leaves no trace before such a request, except one that keeps it from being called
again. -/
def Traceless : Call σ ρ α κ → Prop
  | .done => True
  | .read next => ∀ x, Traceless (next x)
  | .write _ next => ∀ x, GivesUp sys patient (next x)
  | .report _ next => Impatient patient next
  | .ask r next => (∀ f, patient r f → next (sys.lost f) = .done) ∧ ∀ t,
      (sys.serve r t).2 = t ∧ Traceless (next (sys.serve r t).1) ∨
      Gone (sys.serve r t).2 ∧ GivesUp sys patient (next (sys.serve r t).1) ∨
      (∀ f, ¬ patient r f) ∧ Impatient patient (next (sys.serve r t).1)

/-- When the work is gone the call has nothing to do, and it does not come back. A report that
has changed something changes nothing more. -/
structure Patient : Prop where
  traceless : Traceless sys patient Gone sys.main
  rests : ∃ r next, sys.main = .ask r next ∧ ∀ t, Gone t →
    (sys.serve r t).2 = t ∧ next (sys.serve r t).1 = .done
  gone_outside : ∀ o x t, Gone t → Gone (sys.outside o (x, t)).2
  gone_serve : ∀ r t, Gone t → Gone (sys.serve r t).2
  gone_deliver : ∀ k t, Gone t → Gone (sys.deliver k t)
  settles : ∀ k t, sys.deliver k t = t ∨ Settled k (sys.deliver k t)
  settled : ∀ k t, Settled k t → sys.deliver k t = t
  settled_outside : ∀ k o x t, Settled k t → Settled k (sys.outside o (x, t)).2
  settled_serve : ∀ k r t, Settled k t → Settled k (sys.serve r t).2
  settled_deliver : ∀ k k' t, Settled k t → Settled k (sys.deliver k' t)

/-- Only requests that the call has patience with are lost, and if it has changed its surroundings
only when the work is gone. -/
def Careful (s : State σ τ ρ α κ ω) : Event φ ω → Prop
  | .lose f _ =>
    match s.call with
    | .ask r _ => patient r f ∧ (s.wrote = true → Gone s.server)
    | _ => True
  | _ => True

variable {sys} {patient Gone Settled} {init s t : State σ τ ρ α κ ω}

instance {patient : ρ → φ → Prop} {Gone : τ → Prop} [∀ r f, Decidable (patient r f)]
    [DecidablePred Gone] (s : State σ τ ρ α κ ω) : ∀ e, Decidable (Careful patient Gone s e)
  | .lose f _ =>
    match h : s.call with
    | .ask r _ => decidable_of_iff (patient r f ∧ (s.wrote = true → Gone s.server))
        (by simp only [Careful, h])
    | .done | .read _ | .write _ _ | .report _ _ => .isTrue (by simp only [Careful, h])
  | .outside _ | .start | .go | .answer | .deliver _ | .undelivered _ _ _ => .isTrue trivial

lemma Impatient.givesUp {c : Call σ ρ α κ} (h : Impatient patient c) : GivesUp sys patient c := by
  induction c with
  | done => trivial
  | read next ih => exact fun x => ih x (h x)
  | write change next ih => exact fun x => ih x (h x)
  | report k next ih => exact ih h
  | ask r next ih => exact ⟨fun f hf => absurd hf (h.1 f), fun a => ih a (h.2 a)⟩

lemma Impatient.traceless {c : Call σ ρ α κ} (h : Impatient patient c) :
    Traceless sys patient Gone c := by
  induction c with
  | done => trivial
  | read next ih => exact fun x => ih x (h x)
  | write change next ih => exact fun x => (h x).givesUp
  | report k next ih => exact h
  | ask r next ih =>
    exact ⟨fun f hf => absurd hf (h.1 f), fun t => .inr (.inr ⟨h.1, h.2 _⟩)⟩

/-! ### Runs without faults -/

def FaultlessTo (sys : System σ τ ρ α κ φ ω) (init t : State σ τ ρ α κ ω) : Prop :=
  ∃ es, (∀ e ∈ es, e.faultless = true) ∧ run sys.step init es = some t

lemma FaultlessTo.refl : FaultlessTo sys init init := ⟨[], nofun, rfl⟩

lemma FaultlessTo.step {e : Event φ ω} {t' : State σ τ ρ α κ ω} (h : FaultlessTo sys init t)
    (he : e.faultless = true) (hs : sys.step t e = some t') : FaultlessTo sys init t' := by
  obtain ⟨es, hes, hr⟩ := h
  refine ⟨es ++ [e], fun e' he' => ?_, ?_⟩
  · rcases List.mem_append.mp he' with he' | he'
    · exact hes e' he'
    · rw [List.mem_singleton.mp he']
      exact he
  · rw [run_append, hr, Option.bind_some, run, hs]
    rfl

/-- The two states are alike, but for the calls and for reports that make no difference any
more. -/
structure Linked (Settled : κ → τ → Prop) (s t : State σ τ ρ α κ ω) : Prop where
  log : t.log = s.log
  world : t.world = s.world
  server : t.server = s.server
  reports : t.rows.map Prod.fst = s.rows.map Prod.fst
  undelivered : ∀ (i : ℕ) k, s.rows[i]? = some (k, true) →
    t.rows[i]? = some (k, true) ∨ Settled k s.server

lemma Linked.refl : Linked Settled s s := ⟨rfl, rfl, rfl, rfl, fun _ _ => .inl⟩

/-- The rows stay as they are. -/
lemma Linked.congr {s' t' : State σ τ ρ α κ ω} (h : Linked Settled s t) (hs : s'.rows = s.rows)
    (ht : t'.rows = t.rows) (hlog : t'.log = s'.log) (hworld : t'.world = s'.world)
    (hserver : t'.server = s'.server) (hsettled : ∀ k, Settled k s.server → Settled k s'.server) :
    Linked Settled s' t' where
  log := hlog
  world := hworld
  server := hserver
  reports := by rw [hs, ht, h.reports]
  undelivered i k hi := by
    rw [hs] at hi
    rw [ht]
    exact (h.undelivered i k hi).imp_right (hsettled k)

lemma any_same_eq (sys : System σ τ ρ α κ φ ω) (k : κ) {rows rows' : List (κ × Bool)}
    (h : rows.map Prod.fst = rows'.map Prod.fst) :
    (rows.any fun row => sys.same row.1 k) = rows'.any fun row => sys.same row.1 k := by
  have hmap (l : List (κ × Bool)) :
      (l.any fun row => sys.same row.1 k) = (l.map Prod.fst).any fun k' => sys.same k' k := by
    rw [List.any_map]
    rfl
  rw [hmap, hmap, h]

/-- A report is put into both outboxes, or into none. -/
lemma Linked.enqueue {k : κ} {c d : Call σ ρ α κ} (h : Linked Settled s t) :
    Linked Settled { s with rows := sys.enqueue k s.rows, call := c }
      { t with rows := sys.enqueue k t.rows, call := d } := by
  have hsame := any_same_eq sys k h.reports
  have hlen : t.rows.length = s.rows.length := by
    simpa using congrArg List.length h.reports
  refine ⟨h.log, h.world, h.server, ?_, fun i k' hi => ?_⟩
  · dsimp only [System.enqueue]
    rw [hsame]
    split
    · exact h.reports
    · rw [List.map_append, List.map_append, h.reports]
  · dsimp only [System.enqueue] at hi ⊢
    rw [hsame]
    split at hi
    · next hany =>
      rw [if_pos hany]
      exact h.undelivered i k' hi
    · next hany =>
      rw [if_neg hany]
      rcases Nat.lt_or_ge i s.rows.length with hlt | hge
      · rw [List.getElem?_append_left hlt] at hi
        rw [List.getElem?_append_left (hlen ▸ hlt)]
        exact h.undelivered i k' hi
      · rw [List.getElem?_append_right hge] at hi
        rw [List.getElem?_append_right (hlen ▸ hge), hlen]
        exact .inl hi

lemma map_fst_set {rows : List (κ × Bool)} {i : ℕ} {k : κ} {a b : Bool}
    (hi : rows[i]? = some (k, a)) : (rows.set i (k, b)).map Prod.fst = rows.map Prod.fst := by
  have hfst : (rows.map Prod.fst)[i]? = some k := by rw [List.getElem?_map, hi]; rfl
  refine List.ext_getElem? fun j => ?_
  rw [List.map_set, List.getElem?_set]
  split_ifs with hij hlt
  · rw [← hij, hfst]
  · exact absurd (List.getElem?_eq_some_iff.mp hfst).1 hlt
  · rfl

/-- A report that is sent makes a difference at most once. -/
lemma Linked.deliver {i : ℕ} {k : κ} (served kept : Bool)
    (hp : Patient sys patient Gone Settled) (h : Linked Settled s t)
    (ht : FaultlessTo sys init t) (hi : s.rows[i]? = some (k, true)) :
    ∃ t', FaultlessTo sys init t' ∧ t'.call = t.call ∧ Linked Settled { s with
      server := reached served s.server (sys.deliver k s.server)
      rows := s.rows.set i (k, kept) } t' := by
  have hothers {j : ℕ} {k' : κ} (hne : j ≠ i)
      (hj : (s.rows.set i (k, kept))[j]? = some (k', true)) : s.rows[j]? = some (k', true) := by
    rwa [List.getElem?_set_ne hne.symm] at hj
  by_cases hsame : reached served s.server (sys.deliver k s.server) = s.server
  · refine ⟨t, ht, rfl, h.log, h.world, h.server.trans hsame.symm, ?_, fun j k' hj => ?_⟩
    · rw [map_fst_set hi]
      exact h.reports
    · dsimp only
      rw [hsame]
      rcases eq_or_ne j i with rfl | hne
      · have hk : k' = k := by
          rw [List.getElem?_set_self (List.getElem?_eq_some_iff.mp hi).1] at hj
          cases hj
          rfl
        rw [hk]
        exact h.undelivered j k hi
      · exact h.undelivered j k' (hothers hne hj)
  · cases served with
    | false => exact absurd rfl hsame
    | true =>
      have hchange : sys.deliver k s.server ≠ s.server := hsame
      have hpending : t.rows[i]? = some (k, true) :=
        (h.undelivered i k hi).resolve_right fun hs => hchange (hp.settled k _ hs)
      have hsettled := (hp.settles k s.server).resolve_left hchange
      refine ⟨{ t with server := sys.deliver k t.server, rows := t.rows.set i (k, false) },
        ht.step (e := .deliver i) rfl ?_, rfl, h.log, h.world, ?_, ?_, fun j k' hj => ?_⟩
      · simp only [System.step, hpending]
      · dsimp only [reached]
        rw [h.server]
        rfl
      · rw [map_fst_set hi, map_fst_set hpending]
        exact h.reports
      · rcases eq_or_ne j i with rfl | hne
        · rw [List.getElem?_set_self (List.getElem?_eq_some_iff.mp hi).1] at hj
          cases hj
          exact .inr hsettled
        · dsimp only
          rw [List.getElem?_set_ne hne.symm]
          exact (h.undelivered j k' (hothers hne hj)).imp_right (hp.settled_deliver k' k s.server)

/-- Where the call stands: it has left no trace, and the run could just as well have come here
without it; or it has left one; or it is patient no more. -/
inductive Standing (sys : System σ τ ρ α κ φ ω) (patient : ρ → φ → Prop) (Gone : τ → Prop) (Settled : κ → τ → Prop)
    (init s : State σ τ ρ α κ ω) : Prop
  | traceless (hcall : Traceless sys patient Gone s.call)
      (hbase : ∃ t, FaultlessTo sys init t ∧ t.call = .done ∧ Linked Settled s t)
  | traced (hcall : GivesUp sys patient s.call) (hgone : s.wrote = true ∨ Gone s.server)
  | impatient (hcall : Impatient patient s.call)

/-- The run is matched by one without faults, step by step, or ever since the work is gone. -/
inductive Matched (sys : System σ τ ρ α κ φ ω) (patient : ρ → φ → Prop) (Gone : τ → Prop) (Settled : κ → τ → Prop)
    (init s : State σ τ ρ α κ ω) : Prop
  | step (t : State σ τ ρ α κ ω) (ht : FaultlessTo sys init t) (hlinked : Linked Settled s t)
      (hcall : t.call = s.call) (hstanding : Standing sys patient Gone Settled init s)
  | gone (t : State σ τ ρ α κ ω) (ht : FaultlessTo sys init t) (hlinked : Linked Settled s t)
      (hgone : Gone s.server) (hcall : s.call = .done ∨ s.call = sys.main)

variable {s' : State σ τ ρ α κ ω}

lemma Matched.outside {o : ω} (hp : Patient sys patient Gone Settled)
    (h : Matched sys patient Gone Settled init s) (hs : sys.step s (.outside o) = some s') :
    Matched sys patient Gone Settled init s' := by
  cases hs
  have hlinked {t : State σ τ ρ α κ ω} (ht : FaultlessTo sys init t) (hl : Linked Settled s t) :
      ∃ t', FaultlessTo sys init t' ∧ t'.call = t.call ∧ Linked Settled { s with
        world := (sys.outside o (s.world, s.server)).1
        server := (sys.outside o (s.world, s.server)).2
        log := s.log ++ [o] } t' := by
    refine ⟨_, ht.step (e := .outside o) rfl rfl, rfl, hl.congr rfl rfl ?_ ?_ ?_ ?_⟩
    · rw [hl.log]
    · rw [hl.world, hl.server]
    · rw [hl.world, hl.server]
    · exact fun k => hp.settled_outside k o s.world s.server
  cases h with
  | step t ht hl hcall hstanding =>
    obtain ⟨t', ht', hcall', hl'⟩ := hlinked ht hl
    refine .step t' ht' hl' (hcall'.trans hcall) ?_
    cases hstanding with
    | traceless hc hbase =>
      obtain ⟨b, hb, hbcall, hbl⟩ := hbase
      obtain ⟨b', hb', hbcall', hbl'⟩ := hlinked hb hbl
      exact .traceless hc ⟨b', hb', hbcall'.trans hbcall, hbl'⟩
    | traced hc hgone => exact .traced hc (hgone.imp_right (hp.gone_outside o _ _))
    | impatient hc => exact .impatient hc
  | gone t ht hl hgone hcall =>
    obtain ⟨t', ht', -, hl'⟩ := hlinked ht hl
    exact .gone t' ht' hl' (hp.gone_outside o _ _ hgone) hcall

lemma Matched.start (hp : Patient sys patient Gone Settled)
    (h : Matched sys patient Gone Settled init s) (hs : sys.step s .start = some s') :
    Matched sys patient Gone Settled init s' := by
  simp only [System.step] at hs
  split at hs
  swap
  · cases hs
  next hdone =>
  cases hs
  cases h with
  | step t ht hl hcall hstanding =>
    have htdone : t.call = .done := hcall.trans hdone
    have hstart : sys.step t .start = some { t with call := sys.main, wrote := false } := by
      simp only [System.step, htdone]
    exact .step _ (ht.step rfl hstart) (hl.congr rfl rfl hl.log hl.world hl.server fun _ => id) rfl
      (.traceless hp.traceless ⟨t, ht, htdone, hl.congr rfl rfl hl.log hl.world hl.server fun _ => id⟩)
  | gone t ht hl hgone hcall =>
    exact .gone t ht (hl.congr rfl rfl hl.log hl.world hl.server fun _ => id) hgone (.inr rfl)

/-- The main call begins with a request. -/
lemma Patient.call_ask (hp : Patient sys patient Gone Settled)
    (hcall : s.call = .done ∨ s.call = sys.main) :
    s.call = .done ∨ ∃ r next, s.call = .ask r next := by
  obtain ⟨r, next, hmain, -⟩ := hp.rests
  exact hcall.imp_right fun h => ⟨r, next, h.trans hmain⟩

lemma Matched.go (hp : Patient sys patient Gone Settled)
    (h : Matched sys patient Gone Settled init s) (hs : sys.step s .go = some s') :
    Matched sys patient Gone Settled init s' := by
  simp only [System.step] at hs
  cases h with
  | gone t ht hl hgone hcall =>
    rcases hp.call_ask hcall with hc | ⟨r, next, hc⟩
    · rw [hc] at hs
      cases hs
    · rw [hc] at hs
      cases hs
  | step t ht hl hcall hstanding =>
    split at hs
    · next next hread =>
      cases hs
      have hgo : sys.step t .go = some { t with call := next t.world } := by
        simp only [System.step, hcall, hread]
      refine .step _ (ht.step rfl hgo) (hl.congr rfl rfl hl.log hl.world hl.server fun _ => id)
        (by rw [hl.world]) ?_
      cases hstanding with
      | traceless hc hbase =>
        rw [hread] at hc
        obtain ⟨b, hb, hbcall, hbl⟩ := hbase
        exact .traceless (hc s.world)
          ⟨b, hb, hbcall, hbl.congr rfl rfl hbl.log hbl.world hbl.server fun _ => id⟩
      | traced hc hgone =>
        rw [hread] at hc
        exact .traced (hc s.world) hgone
      | impatient hc =>
        rw [hread] at hc
        exact .impatient (hc s.world)
    · next change next hwrite =>
      cases hs
      have hgo : sys.step t .go = some { t with
          world := change t.world, call := next t.world, wrote := true } := by
        simp only [System.step, hcall, hwrite]
      refine .step _ (ht.step rfl hgo)
        (hl.congr rfl rfl hl.log (congrArg change hl.world) hl.server fun _ => id) (by rw [hl.world]) ?_
      cases hstanding with
      | traceless hc hbase =>
        rw [hwrite] at hc
        exact .traced (hc s.world) (.inl rfl)
      | traced hc hgone =>
        rw [hwrite] at hc
        exact .traced (hc s.world) (.inl rfl)
      | impatient hc =>
        rw [hwrite] at hc
        exact .impatient (hc s.world)
    · next k next hreport =>
      cases hs
      have hgo : sys.step t .go = some { t with rows := sys.enqueue k t.rows, call := next } := by
        simp only [System.step, hcall, hreport]
      refine .step _ (ht.step rfl hgo) hl.enqueue rfl ?_
      cases hstanding with
      | traceless hc hbase =>
        rw [hreport] at hc
        exact .impatient hc
      | traced hc hgone =>
        rw [hreport] at hc
        exact .traced hc hgone
      | impatient hc =>
        rw [hreport] at hc
        exact .impatient hc
    · cases hs

lemma Linked.serve {r : ρ} {c d : Call σ ρ α κ} (hp : Patient sys patient Gone Settled)
    (h : Linked Settled s t) :
    Linked Settled { s with server := (sys.serve r s.server).2, call := c }
      { t with server := (sys.serve r t.server).2, call := d } :=
  h.congr rfl rfl h.log h.world (by dsimp only; rw [h.server]) fun k => hp.settled_serve k r s.server

lemma Matched.answer (hp : Patient sys patient Gone Settled)
    (h : Matched sys patient Gone Settled init s) (hs : sys.step s .answer = some s') :
    Matched sys patient Gone Settled init s' := by
  simp only [System.step] at hs
  split at hs
  swap
  · cases hs
  next r next hask =>
  cases hs
  cases h with
  | gone t ht hl hgone hcall =>
    obtain ⟨r', next', hmain, hrests⟩ := hp.rests
    rcases hcall with hc | hc
    · cases hask.symm.trans hc
    · cases (hask.symm.trans hc).trans hmain
      obtain ⟨hsame, hdone⟩ := hrests s.server hgone
      refine .gone t ht (hl.congr rfl rfl hl.log hl.world ?_ ?_) ?_ (.inl hdone)
      · exact hl.server.trans hsame.symm
      · exact fun k => hp.settled_serve k r s.server
      · exact hp.gone_serve r s.server hgone
  | step t ht hl hcall hstanding =>
    have hanswer : sys.step t .answer = some { t with
        server := (sys.serve r t.server).2, call := next (sys.serve r t.server).1 } := by
      simp only [System.step, hcall, hask]
    refine .step _ (ht.step rfl hanswer) (hl.serve hp) (by rw [hl.server]) ?_
    cases hstanding with
    | traceless hc hbase =>
      rw [hask] at hc
      rcases hc.2 s.server with ⟨hsame, hc⟩ | ⟨hgone, hc⟩ | ⟨-, hc⟩
      · obtain ⟨b, hb, hbcall, hbl⟩ := hbase
        exact .traceless hc ⟨b, hb, hbcall, hbl.congr rfl rfl hbl.log hbl.world
          (hbl.server.trans hsame.symm) fun k => hp.settled_serve k r s.server⟩
      · exact .traced hc (.inr hgone)
      · exact .impatient hc
    | traced hc hgone =>
      rw [hask] at hc
      exact .traced (hc.2 _) (hgone.imp_right (hp.gone_serve r s.server))
    | impatient hc =>
      rw [hask] at hc
      exact .impatient (hc.2 _)

/-- A request is lost: the call is over, and either has left no trace or never comes back. -/
lemma Matched.lose {f : φ} {served : Bool} (hp : Patient sys patient Gone Settled)
    (h : Matched sys patient Gone Settled init s)
    (hcareful : Careful patient Gone s (.lose f served))
    (hs : sys.step s (.lose f served) = some s') : Matched sys patient Gone Settled init s' := by
  simp only [System.step] at hs
  split at hs
  swap
  · cases hs
  next r next hask =>
  cases hs
  simp only [Careful, hask] at hcareful
  obtain ⟨hpatient, hwrote⟩ := hcareful
  cases h with
  | gone t ht hl hgone hcall =>
    obtain ⟨r', next', hmain, hrests⟩ := hp.rests
    rcases hcall with hc | hc
    · cases hask.symm.trans hc
    · cases (hask.symm.trans hc).trans hmain
      have htraceless := hp.traceless
      rw [hmain] at htraceless
      have hsame : reached served s.server (sys.serve r s.server).2 = s.server := by
        cases served with
        | false => rfl
        | true => exact (hrests s.server hgone).1
      refine .gone t ht (hl.congr rfl rfl hl.log hl.world (hl.server.trans hsame.symm) ?_) ?_
        (.inl (htraceless.1 f hpatient))
      · exact fun k hset => hsame.symm ▸ hset
      · exact hsame.symm ▸ hgone
  | step t ht hl hcall hstanding =>
    -- The request of the matching run is answered, if it has been served.
    have hends (hend : next (sys.lost f) = .done)
        (hgone : Gone (reached served s.server (sys.serve r s.server).2)) :
        Matched sys patient Gone Settled init { s with
          server := reached served s.server (sys.serve r s.server).2
          call := next (sys.lost f) } := by
      cases served with
      | false => exact .gone t ht (hl.congr rfl rfl hl.log hl.world hl.server fun _ => id) hgone (.inl hend)
      | true =>
        have hanswer : sys.step t .answer = some { t with
            server := (sys.serve r t.server).2, call := next (sys.serve r t.server).1 } := by
          simp only [System.step, hcall, hask]
        exact .gone _ (ht.step rfl hanswer) (hl.serve hp) hgone (.inl hend)
    cases hstanding with
    | traceless hc hbase =>
      rw [hask] at hc
      have hend := hc.1 f hpatient
      have hback (hsame : reached served s.server (sys.serve r s.server).2 = s.server) :
          Matched sys patient Gone Settled init { s with
            server := reached served s.server (sys.serve r s.server).2
            call := next (sys.lost f) } := by
        obtain ⟨b, hb, hbcall, hbl⟩ := hbase
        rw [hsame]
        have hlinked : Linked Settled { s with call := next (sys.lost f) } b :=
          hbl.congr rfl rfl hbl.log hbl.world hbl.server fun _ => id
        refine .step b hb hlinked (hbcall.trans hend.symm) (.traceless ?_ ⟨b, hb, hbcall, hlinked⟩)
        rw [hend]
        trivial
      cases served with
      | false => exact hback rfl
      | true =>
        rcases hc.2 s.server with ⟨hsame, -⟩ | ⟨hgone, -⟩ | ⟨hnot, -⟩
        · exact hback hsame
        · exact hends hend hgone
        · exact absurd hpatient (hnot f)
    | traced hc hgone =>
      rw [hask] at hc
      have hgone : Gone s.server := hgone.elim hwrote id
      refine hends (hc.1 f hpatient) ?_
      cases served with
      | false => exact hgone
      | true => exact hp.gone_serve r s.server hgone
    | impatient hc =>
      rw [hask] at hc
      exact absurd hpatient (hc.1 f)

/-- A report is sent, with or without an answer. -/
lemma Matched.sent {i : ℕ} {k : κ} (served kept : Bool)
    (hp : Patient sys patient Gone Settled) (h : Matched sys patient Gone Settled init s) (hi : s.rows[i]? = some (k, true)) :
    Matched sys patient Gone Settled init { s with
      server := reached served s.server (sys.deliver k s.server)
      rows := s.rows.set i (k, kept) } := by
  have hgoneServed (hgone : Gone s.server) :
      Gone (reached served s.server (sys.deliver k s.server)) := by
    cases served with
    | false => exact hgone
    | true => exact hp.gone_deliver k s.server hgone
  cases h with
  | gone t ht hl hgone hcall =>
    obtain ⟨t', ht', -, hl'⟩ := hl.deliver served kept hp ht hi
    exact .gone t' ht' hl' (hgoneServed hgone) hcall
  | step t ht hl hcall hstanding =>
    obtain ⟨t', ht', hcall', hl'⟩ := hl.deliver served kept hp ht hi
    refine .step t' ht' hl' (hcall'.trans hcall) ?_
    cases hstanding with
    | traceless hc hbase =>
      obtain ⟨b, hb, hbcall, hbl⟩ := hbase
      obtain ⟨b', hb', hbcall', hbl'⟩ := hbl.deliver served kept hp hb hi
      exact .traceless hc ⟨b', hb', hbcall'.trans hbcall, hbl'⟩
    | traced hc hgone => exact .traced hc (hgone.imp_right hgoneServed)
    | impatient hc => exact .impatient hc

lemma Matched.next {e : Event φ ω} (hp : Patient sys patient Gone Settled)
    (h : Matched sys patient Gone Settled init s) (hcareful : Careful patient Gone s e)
    (hs : sys.step s e = some s') : Matched sys patient Gone Settled init s' := by
  cases e with
  | outside o => exact h.outside hp hs
  | start => exact h.start hp hs
  | go => exact h.go hp hs
  | answer => exact h.answer hp hs
  | lose f served => exact h.lose hp hcareful hs
  | deliver i =>
    simp only [System.step] at hs
    split at hs
    · next k hi =>
      cases hs
      exact h.sent true false hp hi
    · cases hs
  | undelivered i served kept =>
    simp only [System.step] at hs
    split at hs
    · next k hi =>
      cases hs
      exact h.sent served kept hp hi
    · cases hs

/-- **Faults only delay** a patient client, in a run where it is patient with all that is lost. -/
theorem only_delayed {es : List (Event φ ω)} (hp : Patient sys patient Gone Settled)
    (hinit : init.call = .done) (hcareful : Meets sys.step (Careful patient Gone) init es)
    (hr : run sys.step init es = some s) : sys.OnlyDelayed init s := by
  have hbegin : Matched sys patient Gone Settled init init :=
    .step init .refl .refl rfl (.traceless (by rw [hinit]; trivial) ⟨init, .refl, hinit, .refl⟩)
  have hend : Matched sys patient Gone Settled init s :=
    run_invariant (fun h hok hs => h.next hp hok hs) hbegin hcareful hr
  have hlinked : ∃ t, FaultlessTo sys init t ∧ Linked Settled s t := by
    cases hend with
    | step t ht hl => exact ⟨t, ht, hl⟩
    | gone t ht hl => exact ⟨t, ht, hl⟩
  obtain ⟨t, ⟨es', hes', hr'⟩, hl⟩ := hlinked
  exact ⟨es', t, hes', hr', hl.log, hl.world, hl.server, hl.reports⟩

/-! ### What runs without faults come to -/

/-- In such surroundings and with such a server the call makes such reports. -/
def Within (sys : System σ τ ρ α κ φ ω) (W : σ → Prop) (T : τ → Prop) (K : κ → Prop) :
    Call σ ρ α κ → Prop
  | .done => True
  | .read next => ∀ x, W x → Within sys W T K (next x)
  | .write change next => ∀ x, W x → W (change x) ∧ Within sys W T K (next x)
  | .report k next => K k ∧ Within sys W T K next
  | .ask r next => ∀ t, T t → T (sys.serve r t).2 ∧ Within sys W T K (next (sys.serve r t).1)

structure Confined (sys : System σ τ ρ α κ φ ω) (W : σ → Prop) (T : τ → Prop) (K : κ → Prop)
    (s : State σ τ ρ α κ ω) : Prop where
  call : Within sys W T K s.call
  world : W s.world
  server : T s.server
  reports : ∀ row ∈ s.rows, K row.1

variable {W : σ → Prop} {T : τ → Prop} {K : κ → Prop}

lemma Confined.step {e : Event φ ω} (hmain : Within sys W T K sys.main)
    (hdeliver : ∀ k t, K k → T t → T (sys.deliver k t)) (h : Confined sys W T K s)
    (he : e.faultless = true) (hs : sys.step s e = some s') (hlog : s'.log = []) :
    Confined sys W T K s' := by
  cases e with
  | outside o =>
    cases hs
    exact absurd hlog (List.append_ne_nil_of_right_ne_nil _ (List.cons_ne_nil _ _))
  | start =>
    simp only [System.step] at hs
    split at hs
    · cases hs
      exact ⟨hmain, h.world, h.server, h.reports⟩
    · cases hs
  | go =>
    have hc := h.call
    simp only [System.step] at hs
    split at hs
    · next next hread =>
      cases hs
      rw [hread] at hc
      exact ⟨hc _ h.world, h.world, h.server, h.reports⟩
    · next change next hwrite =>
      cases hs
      rw [hwrite] at hc
      exact ⟨(hc _ h.world).2, (hc _ h.world).1, h.server, h.reports⟩
    · next k next hreport =>
      cases hs
      rw [hreport] at hc
      refine ⟨hc.2, h.world, h.server, fun row hrow => ?_⟩
      dsimp only [System.enqueue] at hrow
      split at hrow
      · exact h.reports row hrow
      · rcases List.mem_append.mp hrow with hrow | hrow
        · exact h.reports row hrow
        · rw [List.mem_singleton.mp hrow]
          exact hc.1
    · cases hs
  | answer =>
    have hc := h.call
    simp only [System.step] at hs
    split at hs
    · next r next hask =>
      cases hs
      rw [hask] at hc
      exact ⟨(hc _ h.server).2, h.world, (hc _ h.server).1, h.reports⟩
    · cases hs
  | deliver i =>
    simp only [System.step] at hs
    split at hs
    · next k hi =>
      cases hs
      have hk : K k := h.reports _ (List.mem_of_getElem? hi)
      refine ⟨h.call, h.world, hdeliver k s.server hk h.server, fun row hrow => ?_⟩
      rcases List.mem_or_eq_of_mem_set hrow with hrow | rfl
      · exact h.reports row hrow
      · exact hk
    · cases hs
  | lose f served => cases he
  | undelivered i served kept => cases he

/-- Nothing is taken out of the log. -/
lemma log_of_step {e : Event φ ω} (hs : sys.step s e = some s') (hlog : s'.log = []) :
    s.log = [] := by
  cases e with
  | outside o =>
    cases hs
    exact absurd hlog (List.append_ne_nil_of_right_ne_nil _ (List.cons_ne_nil _ _))
  | _ =>
    simp only [System.step] at hs
    split at hs <;> cases hs <;> exact hlog

/-- What a run without faults, in which nothing happens outside, comes to. -/
theorem confined {es : List (Event φ ω)} (hmain : Within sys W T K sys.main)
    (hdeliver : ∀ k t, K k → T t → T (sys.deliver k t)) (h : Confined sys W T K init)
    (hes : ∀ e ∈ es, e.faultless = true) (hr : run sys.step init es = some t) (hlog : t.log = []) :
    Confined sys W T K t := by
  have hmeets : Meets sys.step (fun _ e => e.faultless = true) init es :=
    meets_of_forall fun e he _ => hes e he
  refine run_invariant (I := fun s => s.log = [] → Confined sys W T K s) ?_ (fun _ => h) hmeets hr
    hlog
  intro s e s' hI he hs hlog'
  exact (hI (log_of_step hs hlog')).step hmain hdeliver he hs hlog'

end System

end MouseKeeper.Faults
