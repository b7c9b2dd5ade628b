import Std.Data.String.ToNat
import MouseKeeper.Desktop.Execution

/-!
Approved work runs at most once.

The key of a claim is the identifier of its decision, so the unique index on the keys allows
one execution for a decision; a decision that has one is not listed again, and within a pass
it is taken once.
-/

namespace MouseKeeper.Desktop.Execution

open MouseKeeper.ReadCommitted MouseKeeper.Server
open MouseKeeper.Server.Decisions (PublicDecision)

/-! ### The server -/

/-- Orderly tables in which every execution has its decision's key. -/
structure Keyed (d : Db) : Prop extends Orderly False d where
  keys : ∀ e ∈ d.executions, e.idempotencyKey = toString e.decisionId

/-- The assertion about an open call. -/
def Standing (d : Db) (c : Call Delegated Db Lock Code Response) : Prop :=
  Place False d c.held c.request.1 c.change c.rest

lemma Keyed.apply {d : Db} {held : List Lock} {f : Effect} {q : Delegated} {a : Response}
    (h : Keyed d) (hf : f.Enabled False d held) (hq : f.For q.1 a) : Keyed (f.apply d) where
  toOrderly := h.toOrderly.apply hf
  keys e he := by
    rcases execution_origin he with ⟨q', p, rfl, rfl⟩ | ⟨e', he', -, hdec, -, hkey⟩
    · obtain ⟨q, hk⟩ := q
      cases q with
      | createExecution q =>
        obtain ⟨rfl, -⟩ := hq
        exact hk
      | _ => exact hq.elim
    · rw [← hdec, ← hkey]
      exact h.keys e' he'

lemma Keyed.commit {d : Db} {c : Call Delegated Db Lock Code Response} {a : Response}
    (h : Keyed d) (hc : Standing d c) (hr : c.rest = .answer (.ok a)) :
    Keyed (c.view d) ∧ AllKept d (c.view d) ∧ Known (c.view d) c.request.1 a := by
  rw [Standing, hr] at hc
  rcases hc.commit with ⟨hf, hk⟩ | ⟨g, hg, hq, hf⟩ <;> rw [Call.view, hf]
  · exact ⟨h, .refl d, hk⟩
  · exact ⟨h.apply hg hq, h.toOrderly.allKept hg, hq.known hg⟩

theorem delegated_rules : Rules serveDelegated always Keyed Standing where
  start q _ := Place.start q.1
  stmt {d c locks change next} hd h _ hr := by
    refine Place.advance hd.toOrderly h (fun q hq s _ e he hdec => ?_) (fun hf => hf.elim) hr
    have hk := c.request.2
    rw [show c.request.1 = .createExecution q from hq] at hk
    rw [hd.keys e he, hdec]
    exact hk.symm
  commit hd h hr := (hd.commit h hr).1
  stable {d c c' a} hd h hr h' hdis := by
    rw [Standing, hr] at h
    rcases h.commit with ⟨hf, -⟩ | ⟨g, hg, -, hf⟩ <;> rw [Call.view, hf]
    · exact h'
    · exact h'.stable hd.toOrderly hg hdis

lemma toString_inj {i j : ℕ} (h : toString i = toString j) : i = j :=
  Nat.repr_injective h

/-- One execution for a decision. -/
lemma Keyed.decisions {d : Db} (h : Keyed d) : (d.executions.map (·.decisionId)).Nodup := by
  have hk : d.executions.map (·.idempotencyKey) =
      (d.executions.map (·.decisionId)).map toString := by
    rw [List.map_map]
    exact List.map_congr_left h.keys
  have hn := h.executionKeys
  rw [hk] at hn
  exact hn.of_map _

lemma Keyed.execution_unique {d : Db} (h : Keyed d) {e e' : Execution}
    (he : e ∈ d.executions) (he' : e' ∈ d.executions) (hd : e.decisionId = e'.decisionId) :
    e = e' := List.inj_on_of_nodup_map h.decisions he he' hd

/-! ### The desktop -/

/-- The decision has an execution. -/
def Claimed (d : Db) (decisionId : ℕ) : Prop := ∃ e ∈ d.executions, e.decisionId = decisionId

lemma Claimed.later {d d' : Db} {i : ℕ} (h : Claimed d i) (hd : AllKept d d') :
    Claimed d' i := by
  obtain ⟨e, he, hi⟩ := h
  obtain ⟨e', he', hk⟩ := hd e he
  exact ⟨e', he', hk.decisionId.trans hi⟩

structure World.Safe (w : World) : Prop where
  sound : Sound Keyed Standing w.server
  answers : ∀ q a, (q, a) ∈ w.answers → Known w.server.db q.1 a
  ran : w.runs.Nodup
  claimed : ∀ i ∈ w.runs, Claimed w.server.db i
  todo : (w.phase.todo.map (·.id)).Nodup
  unrun : ∀ r ∈ w.phase.todo, r.id ∉ w.runs

lemma World.Safe.initial {d : Db} (h : Unproposed d) : (World.initial d).Safe where
  sound := .quiet ⟨h.orderly False, by simp [h.executions]⟩
  answers := by simp [World.initial]
  ran := .nil
  claimed := by simp [World.initial]
  todo := .nil
  unrun := by simp [World.initial, Phase.todo]

/-- A step of the server keeps the executions, and what it answers is known. -/
lemma World.Safe.serve {w : World} {e : Event Delegated Code Response} {s'} (h : w.Safe)
    (hs : ReadCommitted.Step serveDelegated w.server e s') :
    AllKept w.server.db s'.db ∧
      ∀ q a, (q, a) ∈ w.server.answered e → Known s'.db q.1 a := by
  cases hs with
  | @commit i c r hc hr =>
    obtain ⟨-, hk, ha⟩ := h.sound.db.commit (h.sound.call hc) hr
    refine ⟨hk, fun q a hm => ?_⟩
    simp only [State.answered, hc, Option.toList_some, List.map_cons, List.map_nil,
      List.mem_singleton, Prod.mk.injEq] at hm
    obtain ⟨rfl, rfl⟩ := hm
    exact ha
  | begin | stmt | refuse | abort => exact ⟨.refl _, by simp [State.answered]⟩

/-- A listed decision is listed once, and has no execution. -/
lemma pending_fresh {d : Db} {userId deviceId : ℕ} {l : List PublicDecision} (h : Keyed d)
    (hl : Decisions.pending d userId deviceId = .ok l) :
    (l.map (·.id)).Nodup ∧ ∀ r ∈ l, ¬ Claimed d r.id := by
  unfold Decisions.pending at hl
  split at hl
  · cases hl
    constructor
    · rw [List.map_map]
      exact h.decisionIds.sublist (List.filter_sublist.map _)
    · rintro r hr ⟨e, he, hd⟩
      obtain ⟨x, hx, rfl⟩ := List.mem_map.mp hr
      simp only [List.mem_filter, Bool.and_eq_true, List.all_eq_true, decide_eq_true_eq] at hx
      exact hx.2.2 e he hd
  · cases hl

/-- A phase with less to do. -/
lemma World.Safe.mono {w w' : World} (h : w.Safe) (hs : w'.server = w.server)
    (ha : w'.answers = w.answers) (hr : w'.runs = w.runs)
    (ht : w'.phase.todo.Sublist w.phase.todo) : w'.Safe where
  sound := hs ▸ h.sound
  answers := by rw [hs, ha]; exact h.answers
  ran := hr ▸ h.ran
  claimed := by rw [hs, hr]; exact h.claimed
  todo := h.todo.sublist (ht.map _)
  unrun r hm := by rw [hr]; exact h.unrun r (ht.subset hm)

/-- **One step keeps the world safe**, and every stored result. -/
lemma World.Safe.step {c : Credential} {w w' : World} {l : Label} (h : w.Safe)
    (hs : Step c w l w') : w'.Safe ∧ AllKept w.server.db w'.server.db := by
  cases hs with
  | @serve e s' hs =>
    obtain ⟨hk, ha⟩ := h.serve hs
    refine ⟨⟨delegated_rules.step h.sound hs fun _ _ _ _ => trivial, fun q a hm => ?_, h.ran,
      fun i hi => (h.claimed i hi).later hk, h.todo, h.unrun⟩, hk⟩
    rcases List.mem_append.mp hm with hm | hm
    · exact ha q a hm
    · exact (h.answers q a hm).later hk
  | @listed l hp hl =>
    obtain ⟨hn, hf⟩ := pending_fresh h.sound.db hl
    exact ⟨⟨h.sound, h.answers, h.ran, h.claimed, hn,
      fun r hr hm => hf r hr (h.claimed _ hm)⟩, .refl _⟩
  | @claimed r todo newId e hp ha =>
    have hn := h.todo
    have hu := h.unrun
    rw [hp] at hn hu
    simp only [Phase.todo, List.map_cons, List.nodup_cons] at hn
    obtain ⟨x, hx, -, hkey⟩ := h.answers _ _ ha
    rw [h.sound.db.keys x hx] at hkey
    refine ⟨⟨h.sound, h.answers, ?_, fun i hi => ?_, hn.2, fun r' hr' hm => ?_⟩, .refl _⟩
    · exact List.nodup_cons.mpr ⟨hu r List.mem_cons_self, h.ran⟩
    · rcases List.mem_cons.mp hi with rfl | hi
      · exact ⟨x, hx, toString_inj hkey⟩
      · exact h.claimed i hi
    · rcases List.mem_cons.mp hm with hid | hm
      · exact hn.1 (List.mem_map.mpr ⟨r', hr', hid⟩)
      · exact hu r' (List.mem_cons_of_mem _ hr') hm
  | claim hp => exact ⟨h.mono rfl rfl rfl (by rw [hp]; exact .refl _), .refl _⟩
  | unclaimed hp =>
    exact ⟨h.mono rfl rfl rfl (by rw [hp]; exact List.sublist_cons_self _ _), .refl _⟩
  | worked _ hp | notStored hp =>
    exact ⟨h.mono rfl rfl rfl (by rw [hp]; exact .refl _), .refl _⟩
  | start | notListed | done | crash =>
    exact ⟨h.mono rfl rfl rfl (List.nil_sublist _), .refl _⟩
  | sent | retried | rejected => exact ⟨h.mono rfl rfl rfl (.refl _), .refl _⟩

/-- **A whole run keeps the world safe**, and every stored result. -/
lemma World.Safe.run {c : Credential} {ok : World → Label → Prop} {w w' : World} (h : w.Safe)
    (hr : Reaches c ok w w') : w'.Safe ∧ AllKept w.server.db w'.server.db := by
  induction hr with
  | refl => exact ⟨h, .refl _⟩
  | tail _ hs ih =>
    obtain ⟨l, hs, -⟩ := hs
    obtain ⟨hw, hk⟩ := ih.1.step hs
    exact ⟨hw, ih.2.trans hk⟩

/-- The condition that asks nothing. -/
def any : World → Label → Prop := fun _ _ => True

/-- What has been done at most once: an execution for a decision, a run of its batch, and a
result, which stays in whatever follows. -/
structure Once (w w' : World) : Prop where
  claimed : (w.server.db.executions.map (·.decisionId)).Nodup
  ran : w.runs.Nodup
  stored : AllKept w.server.db w'.server.db

/-- **Approved work runs at most once**, in every run in which executions are claimed with
the decision's identifier as the key. -/
theorem approved_once {d₀ : Db} (h₀ : Unproposed d₀) (c : Credential) {w w' : World}
    (hr : Reaches c any (.initial d₀) w) (hr' : Reaches c any w w') : Once w w' := by
  obtain ⟨h, -⟩ := (World.Safe.initial h₀).run hr
  exact ⟨h.sound.db.decisions, h.ran, (h.run hr').2⟩

/-! ### A sample run -/

/-- A request that the server serves with no other open. -/
lemma reaches_serve (c : Credential) {ok : World → Label → Prop} (q : Delegated) {d : Db}
    (w : World) (hw : w.server = .quiet d)
    (hok : ∀ s l e, (∀ i x, s.calls i = some x → x.request = q) →
      ok { w with server := s, answers := l } (.serve e)) :
    Reaches c ok w { w with
      server := .quiet ((body q.1).alone id d)
      answers := ((body q.1).aloneAnswer id d).map (q, ·) ++ w.answers } := by
  have hl : Lifts serveDelegated q d (fun w w' => ∃ l, Step c w l w' ∧ ok w l)
      fun s l => { w with server := s, answers := l } :=
    fun l hs _ hc _ => ⟨_, .serve hs, hok _ l _ hc⟩
  have h := hl.alone w.answers
  rw [← hw] at h
  exact h

def sampleCredential : Credential := ⟨1, 9⟩

def sampleDecision : PublicDecision := ⟨21, 7, .approve, [11, 12]⟩

/-- A proposal and its approval. -/
def sampleApproval : List Delegated :=
  [⟨.createProposal ⟨1, 9, "p", 5, 3, none, 7, [11, 12]⟩, trivial⟩,
    ⟨.createDecision ⟨1, 7, "k", .approve, [11, 12], 0, 21⟩, trivial⟩]

def sampleClaim : Delegated := createExecution sampleCredential sampleDecision 31

def sampleResult : Delegated :=
  ⟨.updateExecution ⟨1, 9, 31, "31", .succeeded, "done"⟩, trivial⟩

/-- The tables after the requests have been served one after the other, with the answers. -/
def served : List Delegated → Db × List (Delegated × Response) →
    Db × List (Delegated × Response)
  | [], p => p
  | q :: l, (d, a) => served l ((body q.1).alone id d,
      ((body q.1).aloneAnswer id d).map (q, ·) ++ a)

/-- The world after the requests have been served, with the desktop in a phase. -/
def sampleWorld (l : List Delegated) (phase : Phase) (runs : List ℕ) (results : Outbox.Store) :
    World :=
  ⟨.quiet (served l (sampleTables, [])).1, (served l (sampleTables, [])).2, phase, runs, results⟩

lemma served_append (l : List Delegated) (q : Delegated) (p : Db × List (Delegated × Response)) :
    served (l ++ [q]) p = ((body q.1).alone id (served l p).1,
      ((body q.1).aloneAnswer id (served l p).1).map (q, ·) ++ (served l p).2) := by
  induction l generalizing p with
  | nil => rfl
  | cons q' l ih => exact ih _

lemma reaches_next {c : Credential} {ok : World → Label → Prop} {l : List Delegated}
    {q : Delegated} {phase : Phase} {runs : List ℕ} {results : Outbox.Store}
    (hok : ∀ s a e, (∀ i x, s.calls i = some x → x.request = q) →
      ok ⟨s, a, phase, runs, results⟩ (.serve e)) :
    Reaches c ok (sampleWorld l phase runs results)
      (sampleWorld (l ++ [q]) phase runs results) := by
  have h := reaches_serve c q (sampleWorld l phase runs results) rfl hok
  simp only [sampleWorld, served_append]
  exact h

/-- What a condition has to let through for the sample run. -/
structure Allows (ok : World → Label → Prop) : Prop where
  other : ∀ w e, (∀ i x, w.server.calls i = some x → ∀ b, x.request.1 ≠ .createExecution b) →
    ok w (.serve e)
  claim : ∀ w e, w.phase = .claiming sampleDecision [] →
    (∀ i x, w.server.calls i = some x → x.request = sampleClaim) → ok w (.serve e)
  start : ∀ w, ok w .start
  listed : ∀ w, ok w .listed
  claiming : ∀ w, ok w .claim
  claimed : ∀ w e, ok w (.claimed e)
  worked : ∀ w payload, ok w (.worked payload)

variable {ok : World → Label → Prop}

/-- The pass has listed the approved decision and claims it. -/
lemma reaches_claiming (h : Allows ok) : Reaches sampleCredential ok (.initial sampleTables)
    (sampleWorld sampleApproval (.claiming sampleDecision []) [] .empty) := by
  have h₁ : Reaches sampleCredential ok (.initial sampleTables)
      (sampleWorld (sampleApproval.take 1) .idle [] .empty) :=
    reaches_next (l := []) fun s a e hc => h.other _ _ fun i x hx b hb => by
      rw [hc i x hx] at hb
      cases hb
  have h₂ : Reaches sampleCredential ok (sampleWorld (sampleApproval.take 1) .idle [] .empty)
      (sampleWorld sampleApproval .idle [] .empty) :=
    reaches_next (l := sampleApproval.take 1) fun s a e hc => h.other _ _ fun i x hx b hb => by
      rw [hc i x hx] at hb
      cases hb
  have hl : Decisions.pending (served sampleApproval (sampleTables, [])).1 1 9 =
      .ok [sampleDecision] := by decide +kernel
  exact (((h₁.trans h₂).tail ⟨_, .start rfl, h.start _⟩).tail
    ⟨_, .listed rfl hl, h.listed _⟩).tail ⟨_, .claim rfl, h.claiming _⟩

/-- The claim is served and answered. -/
lemma reaches_working (h : Allows ok) : Reaches sampleCredential ok (.initial sampleTables)
    (sampleWorld (sampleApproval ++ [sampleClaim]) (.working sampleDecision 31 []) [21]
      .empty) := by
  have h₁ := (reaches_claiming h).trans (reaches_next (q := sampleClaim) fun s a e hc =>
    h.claim _ _ rfl hc)
  have ha : (body sampleClaim.1).aloneAnswer id (served sampleApproval (sampleTables, [])).1 =
      [.execution ⟨31, 7, 21, 9, .executing, none, "21", none⟩] := by decide +kernel
  have hm : (sampleClaim, .execution ⟨31, 7, 21, 9, .executing, none, "21", none⟩) ∈
      (served (sampleApproval ++ [sampleClaim]) (sampleTables, [])).2 := by
    rw [served_append, ha]
    exact List.mem_cons_self
  have hs : Step sampleCredential
      (sampleWorld (sampleApproval ++ [sampleClaim]) (.claiming sampleDecision []) [] .empty)
      (.claimed ⟨31, 7, 21, 9, .executing, none, "21", none⟩)
      (sampleWorld (sampleApproval ++ [sampleClaim]) (.working sampleDecision 31 []) [21]
        .empty) := .claimed rfl hm
  exact h₁.tail ⟨_, hs, h.claimed _ _⟩

lemma allows_any : Allows any :=
  ⟨fun _ _ _ => trivial, fun _ _ _ _ => trivial, fun _ => trivial, fun _ => trivial,
    fun _ => trivial, fun _ _ => trivial, fun _ _ => trivial⟩

/-- The batch has been run, its result is stored, and the result is uploaded. -/
theorem approved_once_sample : ∃ w w', Once w w' ∧ w.runs = [21] ∧
    w.server.db.executions = [⟨31, 7, 21, 9, .executing, none, "21", none⟩] ∧
    w'.server.db.executions =
      [⟨31, 7, 21, 9, .succeeded, some "done", "21", some "31"⟩] := by
  have h₁ := (reaches_working allows_any).tail ⟨_, .worked "done" rfl, trivial⟩
  have h₂ : Reaches sampleCredential any
      (sampleWorld (sampleApproval ++ [sampleClaim]) (.between []) [21]
        (Outbox.Store.empty.enqueue kindExecutionResult (toString 31) "done"))
      (sampleWorld (sampleApproval ++ [sampleClaim] ++ [sampleResult]) (.between []) [21]
        (Outbox.Store.empty.enqueue kindExecutionResult (toString 31) "done")) :=
    reaches_next fun _ _ _ _ => trivial
  exact ⟨_, _, approved_once unproposed_sample sampleCredential h₁ h₂, rfl,
    by decide +kernel, by decide +kernel⟩

end MouseKeeper.Desktop.Execution
