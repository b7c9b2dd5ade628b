import MouseKeeper.Mobile.ConnectionGate
import Mathlib.Order.Nat

/-!
A summary does not undo what became known after the request for it.

A summary is put in place at three points: in the cache, in the state by the mutation that has
written the cache, and in the state by a load after its mutation. What the server has stopped to
show is in no summary requested later, and the revision tells which requests are later.
-/

namespace MouseKeeper.Mobile.ConnectionGate

open MouseKeeper.Machine

/-! ### What must not happen -/

/-- A summary that is put in place: its request, what is put in place, and what was there. -/
structure Write where
  request : ℕ
  data : ConnectionGateData
  shown : Aggregate → Bool

namespace World

variable (w : World)

def shown (g : Aggregate) : Bool := w.data.any (·.contains g)

/-- The summary that a step puts in place. -/
def write : Action → Option Write
  | .cached true =>
    match w.running with
    | some (.applying _ _ _ refreshed _ request, false) => some ⟨request, refreshed, w.cache.contains⟩
    | _ => none
  | .finish =>
    match w.running with
    | some (.applying _ p revision _ next request, true) =>
      if revision = w.revision ∧ p ≠ .load then some ⟨request, next, w.shown⟩ else none
    | _ => none
  | .resume i =>
    match w.tasks[i]? with
    | some (.returned .load (some true) refreshed request _) => some ⟨request, refreshed, w.shown⟩
    | _ => none
  | _ => none

/-- Nothing comes back that was removed after the summary was asked for, and nothing is dropped
that was added after that. -/
structure Respects (x : Write) : Prop where
  removed : ∀ q : SummaryRequest, w.requests[x.request]? = some q → ∀ g t, (g, t) ∈ w.removed → q.started < t →
    x.data.contains g = false
  added : ∀ q : SummaryRequest, w.requests[x.request]? = some q → ∀ g t, (g, t) ∈ w.added → q.started < t →
    x.shown g = true → x.data.contains g = true

end World

/-- Every summary that the run puts in place respects what became known since it was asked for. -/
def NeverUndone (w₀ : World) (as : List Action) : Prop :=
  ∀ as₁ a as₂ w, as = as₁ ++ a :: as₂ → run World.step w₀ as₁ = some w →
    ∀ x ∈ w.write a, w.Respects x

/-! ### The condition -/

namespace World

variable (w : World)

/-- A summary is put in place only at the revision at which it was asked for, and confirms only a
disconnect that was asked for before it. -/
def MutationTimely : Mutation → Prop
  | .apply _ p revision _ request => ∀ q : SummaryRequest, w.requests[request]? = some q →
    (revision = w.revision → q.revision = w.revision) ∧
      ∀ asked ∈ p.asked, asked ≤ q.revision
  | _ => True

/-- No other mutation has come to its end between that of a load and its answer. -/
def TaskTimely : Task → Prop
  | .returned .load (some true) _ _ mutations => mutations = w.mutations
  | _ => True

def Timely : Action → Prop
  | .mutate => ∀ m ∈ w.queue.head?, w.MutationTimely m
  | .resume i => ∀ t ∈ w.tasks[i]?, w.TaskTimely t
  | _ => True

end World

/-! ### What lasts -/

/-- One state comes after the other: what was named and is not shown stays so, and requests keep
what they have. -/
structure Grows (w w' : World) : Prop where
  revision : w.revision ≤ w'.revision
  time : w.time ≤ w'.time
  named : w.named ⊆ w'.named
  gone : ∀ g ∈ w.named, ¬ w.server.Shows g → ¬ w'.server.Shows g
  requests : ∀ (r : ℕ) (q' : SummaryRequest), w'.requests[r]? = some q' →
    (∃ q : SummaryRequest, w.requests[r]? = some q ∧ q'.started = q.started ∧ q'.revision = q.revision ∧
      (q'.snapshot = q.snapshot ∨ q'.snapshot = some w.server)) ∨
    (w.time ≤ q'.started ∧ w.revision ≤ q'.revision ∧ q'.snapshot = none)
  kept : ∀ (r : ℕ) (q : SummaryRequest), w.requests[r]? = some q →
    ∃ q' : SummaryRequest, w'.requests[r]? = some q' ∧ q'.started = q.started ∧
      q'.revision = q.revision ∧ ∀ s, q.snapshot = some s → q'.snapshot = some s

/-- The aggregate is gone, and no summary that was asked for from the revision on shows it. -/
structure Absent (w : World) (g : Aggregate) (revision : ℕ) : Prop where
  named : g ∈ w.named
  server : ¬ w.server.Shows g
  snapshots : ∀ (r : ℕ) (q : SummaryRequest) (s : Summary), w.requests[r]? = some q → revision ≤ q.revision → q.snapshot = some s →
    ¬ s.Shows g

/-- If a summary that was asked for from the revision on does not show it, it is gone. -/
structure Since (w : World) (g : Aggregate) (revision : ℕ) : Prop where
  named : g ∈ w.named
  gone : ∀ (r : ℕ) (q : SummaryRequest) (s : Summary), w.requests[r]? = some q → revision ≤ q.revision → q.snapshot = some s →
    ¬ s.Shows g → ¬ w.server.Shows g

/-- The summaries that were asked for from the revision on were asked for from the time on. -/
structure After (w : World) (time revision : ℕ) : Prop where
  past : time ≤ w.time
  requests : ∀ (r : ℕ) (q : SummaryRequest), w.requests[r]? = some q → revision ≤ q.revision → time ≤ q.started

/-- The data is that of the summary. -/
def Reads (w : World) (request : ℕ) (d : ConnectionGateData) : Prop :=
  ∃ (q : SummaryRequest) (s : Summary), w.requests[request]? = some q ∧ q.snapshot = some s ∧ d = readAuthoritative s

section Grows

variable {w w' w'' : World} {g : Aggregate} {revision time request : ℕ} {d : ConnectionGateData}

lemma Absent.grow (h : Absent w g revision) (hg : Grows w w') : Absent w' g revision where
  named := hg.named h.named
  server := hg.gone g h.named h.server
  snapshots := by
    intro r q' s hq' hr hs
    rcases hg.requests r q' hq' with ⟨q, hq, -, hrev, hsnap | hsnap⟩ | ⟨-, -, hnone⟩
    · exact h.snapshots r q s hq (hrev ▸ hr) (hsnap ▸ hs)
    · rw [hsnap] at hs
      cases hs
      exact h.server
    · rw [hnone] at hs
      cases hs

lemma Since.grow (h : Since w g revision) (hg : Grows w w') : Since w' g revision where
  named := hg.named h.named
  gone := by
    intro r q' s hq' hr hs hno
    refine hg.gone g h.named ?_
    rcases hg.requests r q' hq' with ⟨q, hq, -, hrev, hsnap | hsnap⟩ | ⟨-, -, hnone⟩
    · exact h.gone r q s hq (hrev ▸ hr) (hsnap ▸ hs) hno
    · rw [hsnap] at hs
      cases hs
      exact hno
    · rw [hnone] at hs
      cases hs

lemma After.grow (h : After w time revision) (hg : Grows w w') : After w' time revision where
  past := le_trans h.past hg.time
  requests := by
    intro r q' hq' hr
    rcases hg.requests r q' hq' with ⟨q, hq, ht, hrev, -⟩ | ⟨ht, -, -⟩
    · exact ht ▸ h.requests r q hq (hrev ▸ hr)
    · exact le_trans h.past ht

lemma Reads.grow (h : Reads w request d) (hg : Grows w w') : Reads w' request d := by
  obtain ⟨q, s, hq, hs, hd⟩ := h
  obtain ⟨q', hq', -, -, hsnap⟩ := hg.kept request q hq
  exact ⟨q', s, hq', hsnap s hs, hd⟩

lemma Since.absent (h : Since w g revision) (hd : Reads w request d) {q : SummaryRequest}
    (hq : w.requests[request]? = some q) (hr : revision ≤ q.revision)
    (hno : d.contains g = false) : ¬ w.server.Shows g := by
  obtain ⟨q', s, hq', hs, rfl⟩ := hd
  rw [hq] at hq'
  cases hq'
  exact h.gone request q s hq hr hs (by rw [Summary.Shows, hno]; exact Bool.false_ne_true)

lemma Absent.not_contains (h : Absent w g revision) (hd : Reads w request d) {q : SummaryRequest}
    (hq : w.requests[request]? = some q) (hr : revision ≤ q.revision) : d.contains g = false := by
  obtain ⟨q', s, hq', hs, rfl⟩ := hd
  rw [hq] at hq'
  cases hq'
  exact Bool.eq_false_iff.mpr (h.snapshots request q s hq hr hs)

end Grows

/-! ### The invariant -/

/-- What is put in place now respects all that is known. -/
structure Good (w : World) (request : ℕ) (d : ConnectionGateData) : Prop where
  reads : Reads w request d
  removed : ∀ g t, (g, t) ∈ w.removed → d.contains g = false
  added : ∀ q : SummaryRequest, w.requests[request]? = some q → ∀ g t, (g, t) ∈ w.added →
    t ≤ q.started

/-- The disconnect that is to be confirmed. -/
def Purpose.Known (w : World) : Purpose → Prop
  | .confirm o _ _ asked => Since w o.aggregate asked
  | _ => True

/-- A summary that confirms, applied at the revision, is right if it was asked for in time. -/
def Purpose.Confirms (w : World) (revision request : ℕ) : Purpose → Prop
  | .confirm o _ _ asked => ∀ q : SummaryRequest, w.requests[request]? = some q →
    asked ≤ q.revision → Absent w o.aggregate (revision + 1)
  | _ => True

def Task.Known (w : World) : Task → Prop
  | .reading p revision _ => p.Known w ∧ revision ≤ w.revision
  | .queued p => p.Known w
  | .returned p applied refreshed request mutations => p.Known w ∧ mutations ≤ w.mutations ∧
    (p = .load → applied = some true → mutations = w.mutations → Good w request refreshed)
  | .pausing p => p.Known w
  | .requesting o asked => Since w o.aggregate asked
  | _ => True

/-- What an event or an answer has told is known from its revision on. -/
structure Arrival.Past (w : World) (a : Arrival) : Prop where
  revision : a.revision ≤ w.revision
  after : After w a.time a.revision

def Mutation.Known (w : World) : Mutation → Prop
  | .apply _ p revision refreshed request =>
    Reads w request refreshed ∧ revision ≤ w.revision ∧ p.Known w ∧ p.Confirms w revision request
  | .upsertDevice _ _ a => a.Past w
  | .upsertRoom _ _ _ a => a.Past w
  | .remove g _ a => a.Past w ∧ Absent w g a.revision

def Running.Known (w : World) : Running → Prop
  | .applying _ p revision refreshed next request =>
    Good w request refreshed ∧ (∀ g, next.contains g = refreshed.contains g) ∧ p.Known w ∧
      revision ≤ w.revision ∧ ∀ o e k asked, p = .confirm o e k asked → Absent w o.aggregate revision
  | .upserting _ _ a => a.Past w
  | .removing g _ a => a.Past w ∧ Absent w g a.revision
  | .purging id _ a => a.Past w ∧ Absent w (.device, id) a.revision

/-- The request was made by now, and its answer is what the server has read. -/
structure SummaryRequest.Known (time revision : ℕ) (q : SummaryRequest) : Prop where
  started : q.started ≤ time
  revision : q.revision ≤ revision
  answer : ∀ s, q.answer = some (some s) → q.snapshot = some s

structure Inv (w : World) : Prop where
  requests : ∀ q ∈ w.requests, q.Known w.time w.revision
  tasks : ∀ t ∈ w.tasks, t.Known w
  queue : ∀ m ∈ w.queue, m.Known w
  running : ∀ r b, w.running = some (r, b) → r.Known w
  removed : ∀ g t, (g, t) ∈ w.removed → ∃ revision ≤ w.revision, Absent w g revision
  added : ∀ g t, (g, t) ∈ w.added → ∃ revision ≤ w.revision, After w t revision

/-- The state grows, and what has been put in place is the same. -/
structure GrowsOnly (w w' : World) : Prop extends Grows w w' where
  mutations : w'.mutations = w.mutations
  removed : w'.removed = w.removed
  added : w'.added = w.added

section Known

variable {w w' : World} {request : ℕ} {d : ConnectionGateData}

lemma Good.grow (h : Good w request d) (hg : GrowsOnly w w') : Good w' request d where
  reads := h.reads.grow hg.toGrows
  removed := fun g t hm => h.removed g t (hg.removed ▸ hm)
  added := by
    intro q' hq' g t hm
    obtain ⟨q, -, hq, -, -⟩ := h.reads
    obtain ⟨q'', hq'', hstart, -⟩ := hg.kept request q hq
    rw [hq'] at hq''
    cases hq''
    exact hstart ▸ h.added q hq g t (hg.added ▸ hm)

lemma Purpose.Known.grow {p : Purpose} (h : p.Known w) (hg : Grows w w') : p.Known w' := by
  cases p with
  | confirm o e k asked => exact Since.grow h hg
  | load | reconcile | claim => exact True.intro

lemma Purpose.Confirms.grow {p : Purpose} {revision : ℕ} (h : p.Confirms w revision request)
    (hr : Reads w request d) (hg : Grows w w') : p.Confirms w' revision request := by
  cases p with
  | confirm o e k asked =>
    intro q' hq' hle
    obtain ⟨q, -, hq, -, -⟩ := hr
    obtain ⟨q'', hq'', -, hrev, -⟩ := hg.kept request q hq
    rw [hq'] at hq''
    cases hq''
    exact (h q hq (hrev ▸ hle)).grow hg
  | load | reconcile | claim => exact True.intro

lemma Arrival.Past.grow {a : Arrival} (h : a.Past w) (hg : Grows w w') : a.Past w' :=
  ⟨h.revision.trans hg.revision, h.after.grow hg⟩

lemma Task.Known.grow {t : Task} (h : t.Known w) (hg : GrowsOnly w w') : t.Known w' := by
  cases t with
  | reading p revision request => exact ⟨h.1.grow hg.toGrows, h.2.trans hg.revision⟩
  | queued p => exact Purpose.Known.grow h hg.toGrows
  | returned p applied refreshed request mutations =>
    refine ⟨h.1.grow hg.toGrows, h.2.1.trans hg.mutations.ge, fun hp ha hm => ?_⟩
    exact (h.2.2 hp ha (hm.trans hg.mutations)).grow hg
  | pausing p => exact Purpose.Known.grow h hg.toGrows
  | requesting o asked => exact Since.grow h hg.toGrows
  | claiming | removing | removeFailed | finished => exact True.intro

lemma Mutation.Known.grow {m : Mutation} (h : m.Known w) (hg : Grows w w') : m.Known w' := by
  cases m with
  | apply i p revision refreshed request =>
    obtain ⟨hr, hle, hk, hc⟩ := h
    exact ⟨hr.grow hg, hle.trans hg.revision, hk.grow hg, hc.grow hr hg⟩
  | upsertDevice id device a => exact Arrival.Past.grow h hg
  | upsertRoom id desktopDeviceId room a => exact Arrival.Past.grow h hg
  | remove g task a => exact ⟨h.1.grow hg, h.2.grow hg⟩

lemma Running.Known.grow {r : Running} (h : r.Known w) (hg : GrowsOnly w w') : r.Known w' := by
  cases r with
  | applying i p revision refreshed next request =>
    obtain ⟨hgood, hnext, hk, hle, hc⟩ := h
    exact ⟨hgood.grow hg, hnext, hk.grow hg.toGrows, hle.trans hg.revision,
      fun o e k asked hp => (hc o e k asked hp).grow hg.toGrows⟩
  | upserting g next a => exact Arrival.Past.grow h hg.toGrows
  | removing g task a => exact ⟨h.1.grow hg.toGrows, h.2.grow hg.toGrows⟩
  | purging id task a => exact ⟨h.1.grow hg.toGrows, h.2.grow hg.toGrows⟩

end Known

/-! ### What a step is made of -/

section Parts

variable {w w' : World}

/-- The state grows, and what is new in it is known. -/
lemma Inv.grow (h : Inv w) (hg : GrowsOnly w w')
    (hb : ∀ q ∈ w'.requests, q.Known w'.time w'.revision)
    (ht : ∀ t ∈ w'.tasks, t ∈ w.tasks ∨ t.Known w) (hq : ∀ m ∈ w'.queue, m ∈ w.queue ∨ m.Known w)
    (hr : ∀ r b, w'.running = some (r, b) → (∃ b', w.running = some (r, b')) ∨ r.Known w) :
    Inv w' where
  requests := hb
  tasks := fun t hm => ((ht t hm).elim (h.tasks t) id).grow hg
  queue := fun m hm => ((hq m hm).elim (h.queue m) id).grow hg.toGrows
  running := fun r b hrun =>
    ((hr r b hrun).elim (fun ⟨b', hb'⟩ => h.running r b' hb') id).grow hg
  removed := fun g t hm => by
    obtain ⟨revision, hle, ha⟩ := h.removed g t (hg.removed ▸ hm)
    exact ⟨revision, hle.trans hg.revision, ha.grow hg.toGrows⟩
  added := fun g t hm => by
    obtain ⟨revision, hle, ha⟩ := h.added g t (hg.added ▸ hm)
    exact ⟨revision, hle.trans hg.revision, ha.grow hg.toGrows⟩

/-- The calls, the queue and the running mutation stay as they are. -/
lemma Inv.growOnly (h : Inv w) (hg : GrowsOnly w w') (ht : w'.tasks = w.tasks)
    (hq : w'.queue = w.queue) (hr : w'.running = w.running)
    (hb : ∀ q ∈ w'.requests, q.Known w'.time w'.revision) : Inv w' :=
  h.grow hg hb (fun _ hm => .inl (ht ▸ hm)) (fun _ hm => .inl (hq ▸ hm))
    fun _ b hrun => .inl ⟨b, hr ▸ hrun⟩

/-- The requests stay as they are. -/
lemma growsOnly_same (hrev : w.revision ≤ w'.revision) (htime : w.time ≤ w'.time)
    (hnamed : w.named ⊆ w'.named) (hserver : w'.server = w.server)
    (hreq : w'.requests = w.requests) (hm : w'.mutations = w.mutations)
    (hr : w'.removed = w.removed) (ha : w'.added = w.added) : GrowsOnly w w' where
  revision := hrev
  time := htime
  named := hnamed
  gone := fun _ _ hno => hserver ▸ hno
  requests := fun _ q' hq' => .inl ⟨q', hreq ▸ hq', rfl, rfl, .inl rfl⟩
  kept := fun _ q hq => ⟨q, hreq ▸ hq, rfl, rfl, fun _ hs => hs⟩
  mutations := hm
  removed := hr
  added := ha

lemma growsOnly_refl (w : World) : GrowsOnly w w :=
  growsOnly_same le_rfl le_rfl (List.Subset.refl _) rfl rfl rfl rfl rfl

/-- What is shown, the cache and the request in flight do not matter. -/
lemma Inv.view (h : Inv w) (data : Option ConnectionGateData) (cache : DisplayCache)
    (inFlight : Option ℕ) :
    Inv { w with data := data, cache := cache, inFlight := inFlight } :=
  h.growOnly (growsOnly_same le_rfl le_rfl (List.Subset.refl _) rfl rfl rfl rfl rfl) rfl rfl rfl
    h.requests

lemma growsOnly_bump (w : World) : GrowsOnly w w.bump :=
  growsOnly_same (Nat.le_succ _) le_rfl (List.Subset.refl _) rfl rfl rfl rfl rfl

lemma Inv.bump (h : Inv w) : Inv w.bump :=
  h.growOnly (growsOnly_bump w) rfl rfl rfl fun q hq =>
    ⟨(h.requests q hq).started, (h.requests q hq).revision.trans (Nat.le_succ _),
      (h.requests q hq).answer⟩

lemma Inv.tick (h : Inv w) : Inv { w with time := w.time + 1 } :=
  h.growOnly (growsOnly_same le_rfl (Nat.le_succ _) (List.Subset.refl _) rfl rfl rfl rfl rfl)
    rfl rfl rfl fun q hq =>
    ⟨(h.requests q hq).started.trans (Nat.le_succ _), (h.requests q hq).revision,
      (h.requests q hq).answer⟩

lemma Inv.name (h : Inv w) {named : List Aggregate} (hn : w.named ⊆ named) :
    Inv { w with named := named } :=
  h.growOnly (growsOnly_same le_rfl le_rfl hn rfl rfl rfl rfl rfl) rfl rfl rfl h.requests

lemma Inv.setTask (h : Inv w) {t : Task} (ht : t.Known w) (i : ℕ) : Inv (w.setTask i t) :=
  h.grow (growsOnly_same le_rfl le_rfl (List.Subset.refl _) rfl rfl rfl rfl rfl) h.requests
    (fun _ hm => (List.mem_or_eq_of_mem_set hm).imp id fun heq => by
      obtain rfl := heq
      exact ht)
    (fun _ => .inl) fun _ b hrun => .inl ⟨b, hrun⟩

lemma Inv.start (h : Inv w) {t : Task} (ht : t.Known w) : Inv (w.start t) :=
  h.grow (growsOnly_same le_rfl le_rfl (List.Subset.refl _) rfl rfl rfl rfl rfl) h.requests
    (fun _ hm => (List.mem_append.mp hm).imp id fun heq => by
      obtain rfl := List.mem_singleton.mp heq
      exact ht)
    (fun _ => .inl) fun _ b hrun => .inl ⟨b, hrun⟩

lemma Inv.enqueue (h : Inv w) {m : Mutation} (hm : m.Known w) : Inv (w.enqueue m) :=
  h.grow (growsOnly_same le_rfl le_rfl (List.Subset.refl _) rfl rfl rfl rfl rfl) h.requests
    (fun _ => .inl) (fun _ hm' => (List.mem_append.mp hm').imp id fun heq => by
      obtain rfl := List.mem_singleton.mp heq
      exact hm)
    fun _ b hrun => .inl ⟨b, hrun⟩

lemma Inv.await (h : Inv w) {r : Running} (hr : r.Known w) : Inv (w.await r) :=
  h.grow (growsOnly_same le_rfl le_rfl (List.Subset.refl _) rfl rfl rfl rfl rfl) h.requests
    (fun _ => .inl) (fun _ => .inl) fun _ _ hrun => by
      cases hrun
      exact .inr hr

/-- The running mutation has come to its end, with what it has made known. -/
def World.ending (w : World) (data : Option ConnectionGateData)
    (removed added : List (Aggregate × ℕ)) : World :=
  { w with data := data, removed := removed, added := added }.ended

lemma grows_ending (w : World) (data : Option ConnectionGateData)
    (removed added : List (Aggregate × ℕ)) : Grows w (w.ending data removed added) :=
  have hs := growsOnly_refl w
  ⟨hs.revision, hs.time, hs.named, hs.gone, hs.requests, hs.kept⟩

/-- The end of a mutation: what a load has read before may be out of date. -/
lemma Inv.ending (h : Inv w) (data : Option ConnectionGateData)
    {removed added : List (Aggregate × ℕ)}
    (hr : ∀ g t, (g, t) ∈ removed → ∃ revision ≤ w.revision, Absent w g revision)
    (ha : ∀ g t, (g, t) ∈ added → ∃ revision ≤ w.revision, After w t revision) :
    Inv (w.ending data removed added) := by
  have hg := grows_ending w data removed added
  refine ⟨h.requests, fun t hm => ?_, fun m hm => (h.queue m hm).grow hg, fun r b hrun => ?_,
    fun g t hm => ?_, fun g t hm => ?_⟩
  · have ht := h.tasks t hm
    cases t with
    | returned p applied refreshed request mutations =>
      refine ⟨ht.1.grow hg, ht.2.1.trans (Nat.le_succ _), fun _ _ hm => ?_⟩
      exact absurd (hm.symm.le.trans ht.2.1) (Nat.not_succ_le_self _)
    | reading p revision request => exact ⟨ht.1.grow hg, ht.2⟩
    | queued p => exact Purpose.Known.grow ht hg
    | pausing p => exact Purpose.Known.grow ht hg
    | requesting o asked => exact Since.grow ht hg
    | claiming | removing | removeFailed | finished => exact True.intro
  · cases hrun
  · obtain ⟨revision, hle, hab⟩ := hr g t hm
    exact ⟨revision, hle, hab.grow hg⟩
  · obtain ⟨revision, hle, haf⟩ := ha g t hm
    exact ⟨revision, hle, haf.grow hg⟩

/-- A mutation gives the call that awaits it an answer. -/
lemma Inv.returns (h : Inv w) {i : ℕ} {p : Purpose} {applied : Option Bool}
    {refreshed : ConnectionGateData} {request : ℕ}
    (ht : (Task.returned p applied refreshed request (w.mutations + 1)).Known w.ended) :
    Inv (w.returns i p applied refreshed request) :=
  (h.ending w.data h.removed h.added).setTask ht i

end Parts

/-! ### Requests -/

section Requests

variable {w : World}

lemma mem_aggregates {d : ConnectionGateData} {g : Aggregate} :
    g ∈ d.aggregates ↔ d.contains g = true := by
  obtain ⟨kind, id⟩ := g
  cases kind <;>
    simp [ConnectionGateData.aggregates, ConnectionGateData.contains, ConnectionGateData.items]

lemma Inv.summary (h : Inv w) : GrowsOnly w w.summary.1 ∧ Inv w.summary.1 := by
  unfold World.summary
  cases w.inFlight with
  | some r => exact ⟨growsOnly_refl w, h⟩
  | none =>
    have hg : GrowsOnly w { w with
        requests := w.requests ++ [⟨w.time, w.revision, none, none⟩]
        inFlight := some w.requests.length } := by
      refine ⟨⟨le_rfl, le_rfl, List.Subset.refl _, fun _ _ => id, fun r q' hq' => ?_,
        fun r q hq => ?_⟩, rfl, rfl, rfl⟩
      · rcases Nat.lt_or_ge r w.requests.length with hlt | hge
        · rw [List.getElem?_append_left hlt] at hq'
          exact .inl ⟨q', hq', rfl, rfl, .inl rfl⟩
        · rw [List.getElem?_append_right hge] at hq'
          obtain rfl := List.mem_singleton.mp (List.mem_of_getElem? hq')
          exact .inr ⟨le_rfl, le_rfl, rfl⟩
      · refine ⟨q, ?_, rfl, rfl, fun _ => id⟩
        rw [List.getElem?_append_left (List.getElem?_eq_some_iff.mp hq).1]
        exact hq
    refine ⟨hg, h.growOnly hg rfl rfl rfl fun q hq => ?_⟩
    rcases List.mem_append.mp hq with hq | hq
    · exact h.requests q hq
    · obtain rfl := List.mem_singleton.mp hq
      exact ⟨le_rfl, le_rfl, nofun⟩

lemma Inv.reading (h : Inv w) {p : Purpose} (hp : p.Known w) :
    (Task.reading p w.revision w.summary.2).Known w.summary.1 :=
  ⟨hp.grow h.summary.1.toGrows, h.summary.1.revision⟩

lemma Inv.read (h : Inv w) {p : Purpose} (hp : p.Known w) (i : ℕ) : Inv (w.read i p) :=
  h.summary.2.setTask (h.reading hp) i

lemma Inv.startReading (h : Inv w) {p : Purpose} (hp : p.Known w) : Inv (w.startReading p) :=
  h.summary.2.start (h.reading hp)

/-- A request is answered, or the server reads for it. -/
lemma Inv.setRequest (h : Inv w) {r : ℕ} {q q' : SummaryRequest} (hq : w.requests[r]? = some q)
    (ht : q'.started = q.started) (hv : q'.revision = q.revision)
    (hs : q'.snapshot = q.snapshot ∨ q.snapshot = none ∧ q'.snapshot = some w.server)
    (ha : ∀ s, q'.answer = some (some s) → q'.snapshot = some s) :
    Inv { w with requests := w.requests.set r q' } := by
  have hr : r < w.requests.length := (List.getElem?_eq_some_iff.mp hq).1
  have hg : GrowsOnly w { w with requests := w.requests.set r q' } := by
    refine ⟨⟨le_rfl, le_rfl, List.Subset.refl _, fun _ _ => id, fun k x hx => ?_,
      fun k x hx => ?_⟩, rfl, rfl, rfl⟩
    · rcases eq_or_ne r k with rfl | hne
      · rw [List.getElem?_set_self hr] at hx
        cases hx
        exact .inl ⟨q, hq, ht, hv, hs.imp id And.right⟩
      · rw [List.getElem?_set_ne hne] at hx
        exact .inl ⟨x, hx, rfl, rfl, .inl rfl⟩
    · rcases eq_or_ne r k with rfl | hne
      · rw [hq] at hx
        cases hx
        refine ⟨q', List.getElem?_set_self hr, ht, hv, fun s hsome => ?_⟩
        rcases hs with hs | ⟨hnone, -⟩
        · exact hs.trans hsome
        · rw [hnone] at hsome
          cases hsome
      · exact ⟨x, (List.getElem?_set_ne hne).trans hx, rfl, rfl, fun _ => id⟩
  refine h.growOnly hg rfl rfl rfl fun x hx => ?_
  rcases List.mem_or_eq_of_mem_set hx with hx | rfl
  · exact h.requests x hx
  · have hk := h.requests q (List.mem_of_getElem? hq)
    exact ⟨ht.trans_le hk.started, hv.trans_le hk.revision, ha⟩

lemma Inv.answered (h : Inv w) {r : ℕ} {q q' : SummaryRequest} (hq : w.requests[r]? = some q)
    (ht : q'.started = q.started) (hv : q'.revision = q.revision)
    (hs : q'.snapshot = q.snapshot)
    (ha : ∀ s, q'.answer = some (some s) → q'.snapshot = some s) : Inv (w.answered r q') :=
  (h.setRequest hq ht hv (.inl hs) ha).view w.data w.cache
    (if w.inFlight = some r then none else w.inFlight)

lemma Inv.serve (h : Inv w) {s : Summary}
    (hs : ∀ g ∈ (readAuthoritative s).aggregates, w.server.Shows g ∨ g ∉ w.named) :
    Inv { w with server := s, named := (readAuthoritative s).aggregates ++ w.named } := by
  refine h.growOnly ⟨⟨le_rfl, le_rfl, List.subset_append_right _ _, fun g hn hno hshows => ?_,
    fun _ q' hq' => .inl ⟨q', hq', rfl, rfl, .inl rfl⟩, fun _ q hq => ⟨q, hq, rfl, rfl, fun _ => id⟩⟩,
    rfl, rfl, rfl⟩ rfl rfl rfl h.requests
  rcases hs g (mem_aggregates.mpr hshows) with h' | h'
  · exact hno h'
  · exact h' hn

/-- No request has been made at a revision that is only coming. -/
lemma Inv.request_le (h : Inv w) {r : ℕ} {q : SummaryRequest} (hq : w.requests[r]? = some q) :
    ¬ w.revision + 1 ≤ q.revision :=
  Nat.not_lt_of_le (h.requests q (List.mem_of_getElem? hq)).revision

/-- What is gone now is in no summary that is asked for after the next bump. -/
lemma Inv.absent (h : Inv w) {g : Aggregate} (hn : g ∈ w.named) (hno : ¬ w.server.Shows g) :
    Absent w g (w.revision + 1) :=
  ⟨hn, hno, fun _ _ _ hq hle => absurd hle (h.request_le hq)⟩

lemma Inv.since (h : Inv w) {g : Aggregate} (hn : g ∈ w.named) : Since w g (w.revision + 1) :=
  ⟨hn, fun _ _ _ hq hle => absurd hle (h.request_le hq)⟩

lemma Inv.after (h : Inv w) : After w w.time (w.revision + 1) :=
  ⟨le_rfl, fun _ _ hq hle => absurd hle (h.request_le hq)⟩

lemma Inv.arrived (h : Inv w) : (⟨w.time, w.revision + 1⟩ : Arrival).Past w.bump :=
  ⟨le_rfl, h.after.grow (growsOnly_bump w).toGrows⟩

lemma Inv.arrive (h : Inv w) {m : Arrival → Mutation}
    (hm : (m ⟨w.time, w.revision + 1⟩).Known w.bump) : Inv (w.arrive m) :=
  h.bump.enqueue hm

lemma Inv.arriveRemoved (h : Inv w) {g : Aggregate} (hn : g ∈ w.named) (hno : ¬ w.server.Shows g)
    (task : Option ℕ) : Inv (w.arrive (.remove g task)) :=
  h.arrive ⟨h.arrived, (h.absent hn hno).grow (growsOnly_bump w).toGrows⟩

end Requests

/-! ### Calls -/

section Calls

variable {w : World} (h : Inv w)
include h

lemma Inv.finished (i : ℕ) : Inv (w.setTask i .finished) :=
  h.setTask (t := .finished) True.intro i

lemma Inv.recordFailure (i : ℕ) (o : DisconnectOperation) (error : DisconnectError) :
    Inv (w.recordFailure i o error) :=
  (h.view _ w.cache w.inFlight).finished i

lemma Inv.pause {p : Purpose} (hp : p.Known w) (i : ℕ) : Inv (w.pause i p) := by
  cases p with
  | load | reconcile => exact h.finished i
  | claim attempt =>
    refine h.setTask ?_ i
    split <;> exact True.intro
  | confirm o error attempt asked =>
    simp only [World.pause]
    split
    · exact h.setTask (t := .pausing (.confirm o error attempt asked)) hp i
    · exact h.recordFailure i o error

lemma Inv.summaryFailed {p : Purpose} (hp : p.Known w) (i : ℕ) : Inv (w.summaryFailed i p) := by
  cases p with
  | load => exact (h.finished i).view none w.cache w.inFlight
  | reconcile | claim | confirm => exact h.pause hp i

lemma Inv.enqueueApply {i : ℕ} {p : Purpose} {revision request : ℕ}
    {refreshed : ConnectionGateData} (hp : p.Known w)
    (hm : (Mutation.apply i p revision refreshed request).Known w) :
    Inv (w.enqueueApply i p revision refreshed request) := by
  have hg : GrowsOnly w (w.enqueue (.apply i p revision refreshed request)) :=
    growsOnly_same le_rfl le_rfl (List.Subset.refl _) rfl rfl rfl rfl rfl
  exact (h.enqueue hm).setTask (t := .queued p) (hp.grow hg.toGrows) i

lemma Inv.summaryRead {i : ℕ} {p : Purpose} {revision request : ℕ}
    {refreshed : ConnectionGateData} (hp : p.Known w) (hle : revision ≤ w.revision)
    (hr : Reads w request refreshed) : Inv (w.summaryRead i p revision request refreshed) := by
  cases p with
  | load => exact h.enqueueApply hp ⟨hr, hle, hp, True.intro⟩
  | reconcile =>
    simp only [World.summaryRead]
    split
    · exact h.enqueueApply hp ⟨hr, hle, hp, True.intro⟩
    · exact h.finished i
  | claim attempt =>
    simp only [World.summaryRead]
    split
    · exact h.enqueueApply hp ⟨hr, hle, hp, True.intro⟩
    · exact h.pause hp i
  | confirm o error attempt asked =>
    simp only [World.summaryRead]
    split
    · exact h.pause hp i
    · rename_i hno
      -- the summary does not show it, so it is gone by now
      have hc : (Purpose.confirm o error attempt asked).Confirms w w.revision request :=
        fun q hq hasked => h.absent (Since.named hp)
          (Since.absent hp hr hq hasked (Bool.eq_false_iff.mpr hno))
      exact h.enqueueApply hp ⟨hr, le_rfl, hp, hc⟩

lemma Inv.mutationReturned {i : ℕ} {p : Purpose} {applied : Option Bool}
    {refreshed : ConnectionGateData} (hp : p.Known w) :
    Inv (w.mutationReturned i p refreshed applied) := by
  rcases applied with _ | _ | _
  · exact h.summaryFailed hp i
  · cases p with
    | load => exact h.read (p := .load) True.intro i
    | reconcile | claim | confirm => exact h.pause hp i
  · cases p with
    | load => exact (h.finished i).view (some refreshed) w.cache w.inFlight
    | reconcile | claim | confirm => exact h.finished i

lemma Inv.resume {i : ℕ} {t : Task} {w' : World} (ht : t.Known w)
    (hres : w.resume i t = some w') : Inv w' := by
  cases t with
  | reading p revision request =>
    simp only [World.resume] at hres
    split at hres
    · rename_i s hs
      obtain ⟨q, hq, hs⟩ := Option.bind_eq_some_iff.mp hs
      cases hres
      exact h.summaryRead ht.1 ht.2 ⟨q, s, hq, (h.requests q (List.mem_of_getElem? hq)).answer s hs, rfl⟩
    · cases hres
      exact h.summaryFailed ht.1 i
    · cases hres
  | returned p applied refreshed request mutations =>
    cases hres
    exact h.mutationReturned ht.1
  | pausing p =>
    cases p with
    | claim attempt =>
      cases hres
      exact h.read (p := .claim (attempt + 1)) True.intro i
    | confirm o error attempt asked =>
      cases hres
      exact h.read (p := .confirm o error (attempt + 1) asked) ht i
    | load | reconcile => cases hres
  | removeFailed o =>
    cases hres
    exact h.recordFailure i o _
  | queued | claiming | requesting | removing | finished => cases hres

lemma Inv.reconcile : Inv w.reconcile := by
  unfold World.reconcile
  cases w.data with
  | none => exact (h.bump.view none w.cache w.inFlight).startReading (p := .load) True.intro
  | some d => exact h.startReading (p := .reconcile) True.intro

lemma Inv.requestDisconnect (o : DisconnectOperation) : Inv (w.requestDisconnect o) := by
  have hn : Inv { w.bump.setOperation o with named := o.aggregate :: w.named } :=
    (h.bump.view (w.bump.setOperation o).data w.cache w.inFlight).name
      (List.subset_cons_self _ _)
  have hs : Since { w.bump.setOperation o with named := o.aggregate :: w.named } o.aggregate
      (w.revision + 1) :=
    ⟨List.mem_cons_self, fun r q s hq hle => absurd hle (h.request_le hq)⟩
  exact hn.start (t := .requesting o (w.revision + 1)) hs

lemma Inv.disconnect (g : Aggregate) (key : ℕ) (retry : Bool) : Inv (w.disconnect g key retry) := by
  unfold World.disconnect
  split
  · exact h
  · split
    · exact h
    · split
      · exact h.requestDisconnect _
      · exact h
    · exact h.requestDisconnect _

lemma Inv.disconnected {i : ℕ} {o : DisconnectOperation} {asked : ℕ}
    {error : Option DisconnectError} (hs : Since w o.aggregate asked)
    (hno : error = none → ¬ w.server.Shows o.aggregate) : Inv (w.disconnected i o asked error) := by
  cases error with
  | none =>
    exact (h.arriveRemoved hs.named (hno rfl) (some i)).setTask (t := .removing o) True.intro i
  | some error =>
    simp only [World.disconnected]
    split
    · exact h.read (p := .confirm o error 0 asked) hs i
    · exact h.recordFailure i o error

lemma Inv.reduceLifecycle {e : LifecycleEvent}
    (he : ∀ g ∈ e.gone, g ∈ w.named ∧ ¬ w.server.Shows g) : Inv (w.reduceLifecycle e) := by
  cases e with
  | deviceRevoked id =>
    obtain ⟨hn, hno⟩ := he (.device, id) rfl
    exact h.arriveRemoved hn hno none
  | roomRemoved id =>
    obtain ⟨hn, hno⟩ := he (.room, id) rfl
    exact h.arriveRemoved hn hno none
  | devicePaired device =>
    cases device with
    | none => exact h.reconcile
    | some device =>
      simp only [World.reduceLifecycle]
      split
      · exact h.arrive (m := .upsertDevice _ device) h.arrived
      · exact h
  | roomCreated room =>
    cases room with
    | none => exact h.reconcile
    | some room =>
      simp only [World.reduceLifecycle]
      split
      · exact h.arrive (m := .upsertRoom _ _ room) h.arrived
      · exact h

end Calls

/-! ### Mutations -/

section Mutations

variable {w : World} (h : Inv w)
include h

/-- The mutation gives an answer that lets nothing be put in place. -/
lemma Inv.settle {removed added : List (Aggregate × ℕ)}
    (hr : ∀ g t, (g, t) ∈ removed → ∃ revision ≤ w.revision, Absent w g revision)
    (ha : ∀ g t, (g, t) ∈ added → ∃ revision ≤ w.revision, After w t revision)
    (data : Option ConnectionGateData) (i : ℕ) {p : Purpose} {applied : Option Bool}
    (refreshed : ConnectionGateData) (request : ℕ) (hp : p.Known w)
    (hl : p = .load → applied ≠ some true) :
    Inv ((w.ending data removed added).setTask i
      (.returned p applied refreshed request (w.mutations + 1))) :=
  (h.ending data hr ha).setTask (t := .returned p applied refreshed request (w.mutations + 1))
    ⟨hp.grow (grows_ending w data removed added), le_rfl, fun hp ht => absurd ht (hl hp)⟩ i

lemma Inv.ended : Inv w.ended := h.ending w.data h.removed h.added

/-- What is gone now is kept with what was removed before. -/
lemma Inv.removedNow {g : Aggregate} {revision : ℕ} (hle : revision ≤ w.revision)
    (hg : Absent w g revision) : ∀ g' t, (g', t) ∈ (g, w.time) :: w.removed →
      ∃ revision ≤ w.revision, Absent w g' revision := by
  intro g' t hm
  rcases List.mem_cons.mp hm with heq | hm
  · cases heq
    exact ⟨revision, hle, hg⟩
  · exact h.removed g' t hm

lemma Inv.returnsFalse {i : ℕ} {p : Purpose} {refreshed : ConnectionGateData} {request : ℕ}
    (hp : p.Known w) : Inv (w.returns i p (some false) refreshed request) :=
  h.settle h.removed h.added w.data i refreshed request hp fun _ => nofun

/-- A summary that was asked for at the revision respects all that is known. -/
lemma Inv.good {request : ℕ} {refreshed : ConnectionGateData} (hr : Reads w request refreshed)
    (hq : ∀ q : SummaryRequest, w.requests[request]? = some q → q.revision = w.revision) :
    Good w request refreshed where
  reads := hr
  removed := by
    intro g t hm
    obtain ⟨revision, hle, ha⟩ := h.removed g t hm
    obtain ⟨q, s, hq', hs⟩ := hr
    exact ha.not_contains ⟨q, s, hq', hs⟩ hq' (hle.trans (hq q hq').ge)
  added := by
    intro q hq' g t hm
    obtain ⟨revision, hle, ha⟩ := h.added g t hm
    exact ha.requests request q hq' (hle.trans (hq q hq').ge)

lemma Inv.applying {i : ℕ} {p : Purpose} {refreshed next : ConnectionGateData} {request : ℕ}
    (hgood : Good w request refreshed) (hnext : ∀ g, next.contains g = refreshed.contains g)
    (hp : p.Known w)
    (hc : ∀ o e k asked, p = .confirm o e k asked → Absent w o.aggregate (w.revision + 1)) :
    Inv (w.applying i p refreshed next request) := by
  have hg := growsOnly_bump w
  exact h.bump.await ⟨hgood.grow hg, hnext, hp.grow hg.toGrows, le_rfl,
    fun o e k asked heq => (hc o e k asked heq).grow hg.toGrows⟩

lemma Inv.mutateApply {i : ℕ} {p : Purpose} {revision request : ℕ}
    {refreshed : ConnectionGateData}
    (hk : (Mutation.apply i p revision refreshed request).Known w)
    (ht : w.MutationTimely (.apply i p revision refreshed request)) :
    Inv (w.mutateApply i p revision refreshed request) := by
  obtain ⟨hr, hle, hp, hc⟩ := hk
  unfold World.mutateApply
  split
  · rename_i heq
    subst heq
    have hgood : Good w request refreshed := h.good hr fun q hq => (ht q hq).1 rfl
    have hconfirm : ∀ o e k asked, p = .confirm o e k asked →
        Absent w o.aggregate (w.revision + 1) := by
      rintro o e k asked rfl
      obtain ⟨q, s, hq, -⟩ := hr
      exact hc q hq ((ht q hq).2 asked rfl)
    split
    · split
      · exact h.returnsFalse hp
      · split
        · exact h.applying hgood (fun _ => rfl) hp hconfirm
        · exact h.returnsFalse hp
    · exact h.applying hgood (fun _ => rfl) hp hconfirm
  · rename_i hne
    split
    · split
      · obtain ⟨q, s, hq, -⟩ := id hr
        have hab := hc q hq ((ht q hq).2 _ rfl)
        exact h.settle (h.removedNow (Nat.lt_of_le_of_ne hle hne) hab) h.added w.data i refreshed
          request hp nofun
      · exact h.returnsFalse hp
    · exact h.returnsFalse hp

lemma Inv.mutate {m : Mutation} (hk : m.Known w) (ht : w.MutationTimely m) : Inv (w.mutate m) := by
  cases m with
  | apply i p revision refreshed request => exact h.mutateApply hk ht
  | upsertDevice id device a => exact h.await (r := .upserting _ _ a) hk
  | upsertRoom id desktopDeviceId room a =>
    simp only [World.mutate]
    split
    · exact h.ended
    · split
      · exact h.await (r := .upserting _ _ a) hk
      · exact h.ended
  | remove g task a => exact h.await (r := .removing g task a) hk

lemma Inv.cacheWritten {r : Running} {b : Bool} {w' : World} (hr : w.running = some (r, b))
    (hres : w.cacheWritten r = some w') : Inv w' := by
  have hk := h.running r b hr
  have hw : ∀ cache, Inv ({ w with cache := cache, running := some (r, true) }) := fun cache =>
    (h.grow (growsOnly_same le_rfl le_rfl (List.Subset.refl _) rfl rfl rfl rfl rfl) h.requests
      (fun _ => .inl) (fun _ => .inl) fun r' b' hrun => by
        cases hrun
        exact .inr hk : Inv { w with cache := cache, running := some (r, true) })
  cases r with
  | applying i p revision refreshed next request =>
    obtain ⟨-, heq⟩ := Option.ite_none_right_eq_some.mp hres
    cases heq
    exact hw _
  | upserting g next a =>
    obtain ⟨-, heq⟩ := Option.ite_none_right_eq_some.mp hres
    cases heq
    exact hw _
  | removing g task a =>
    cases hres
    exact hw _
  | purging id task a =>
    cases hres
    exact hw _

lemma Inv.failRemoving (task : Option ℕ) : Inv (w.failRemoving task) := by
  unfold World.failRemoving
  split
  · exact h.ended
  · split
    · exact (h.setTask (t := .removeFailed _) True.intro _).ended
    · exact h.ended

lemma Inv.cacheFailed {r : Running} (hk : r.Known w) : Inv (w.cacheFailed r) := by
  cases r with
  | applying i p revision refreshed next request =>
    exact h.settle h.removed h.added w.data i refreshed request hk.2.2.1 fun _ => nofun
  | upserting g next a => exact h.ended
  | removing g task a => exact h.failRemoving task
  | purging id task a => exact h.failRemoving task

lemma Inv.removalDone {g : Aggregate} {revision : ℕ} (hle : revision ≤ w.revision)
    (hg : Absent w g revision) (task : Option ℕ) (data : Option ConnectionGateData) :
    Inv ({ w with data := data }.removalDone g task) := by
  have he := h.ending data (h.removedNow hle hg) h.added
  cases task with
  | none => exact he
  | some i => exact he.finished i

lemma Inv.finish {r : Running} (hk : r.Known w) : Inv (w.finish r) := by
  cases r with
  | applying i p revision refreshed next request =>
    obtain ⟨hgood, hnext, hp, hle, hc⟩ := hk
    simp only [World.finish]
    split
    · cases p with
      | load =>
        have hg : Good w.ended request refreshed :=
          ⟨hgood.reads.grow (grows_ending w w.data w.removed w.added), hgood.removed, hgood.added⟩
        exact h.returns ⟨True.intro, le_rfl, fun _ _ _ => hg⟩
      | confirm o e k asked =>
        exact h.settle (h.removedNow hle (hc o e k asked rfl)) h.added (some next) i refreshed
          request hp nofun
      | reconcile => exact h.settle h.removed h.added (some next) i refreshed request hp nofun
      | claim attempt =>
        exact h.settle h.removed h.added (some next) i refreshed request hp nofun
    · exact h.returnsFalse hp
  | upserting g next a =>
    refine h.ending (some next) h.removed fun g' t hm => ?_
    rcases List.mem_cons.mp hm with heq | hm
    · cases heq
      exact ⟨a.revision, hk.revision, hk.after⟩
    · exact h.added g' t hm
  | removing g task a =>
    obtain ⟨kind, id⟩ := g
    obtain ⟨hpast, hab⟩ := hk
    cases kind with
    | device =>
      simp only [World.finish]
      split
      · exact h.removalDone hpast.revision hab task w.data
      · split
        · exact h.await (r := .purging id task a) ⟨hpast, hab⟩
        · exact h.removalDone hpast.revision hab task _
    | room => exact h.removalDone hpast.revision hab task _
  | purging id task a =>
    obtain ⟨hpast, hab⟩ := hk
    exact h.removalDone hpast.revision hab task _

end Mutations

/-! ### Runs -/

section Runs

variable {w w' : World} {a : Action}

lemma Inv.act (h : Inv w) (hok : w.Timely a) (hact : w.act a = some w') : Inv w' := by
  cases a with
  | server s =>
    obtain ⟨hs, heq⟩ := Option.ite_none_right_eq_some.mp hact
    cases heq
    exact h.serve hs
  | snapshot r =>
    simp only [World.act] at hact
    split at hact
    · rename_i hq
      cases hact
      exact h.setRequest hq rfl rfl (.inr ⟨rfl, rfl⟩) nofun
    · cases hact
  | answer r ok =>
    simp only [World.act] at hact
    split at hact
    · rename_i hq
      cases hact
      refine h.answered hq rfl rfl rfl fun x hx => ?_
      cases ok with
      | true =>
        cases hx
        rfl
      | false => cases hx
    · rename_i hq
      split at hact
      · cases hact
      · cases hact
        exact h.answered hq rfl rfl rfl nofun
    · cases hact
  | retryLoad =>
    cases hact
    exact (h.bump.view none w.cache w.inFlight).startReading (p := .load) True.intro
  | reconcile =>
    cases hact
    exact h.reconcile
  | claimAndConfirm =>
    cases hact
    unfold World.claimAndConfirm
    split
    · exact h
    · exact h.start (t := .claiming) True.intro
  | claimed i ok =>
    simp only [World.act] at hact
    split at hact
    · cases hact
      split
      · exact h.read (p := .claim 0) True.intro i
      · exact h.finished i
    · cases hact
  | disconnect g key retry =>
    cases hact
    exact h.disconnect g key retry
  | disconnected i error =>
    simp only [World.act] at hact
    split at hact
    · rename_i hi
      obtain ⟨hno, heq⟩ := Option.ite_none_left_eq_some.mp hact
      cases heq
      exact h.disconnected (h.tasks _ (List.mem_of_getElem? hi))
        fun he hshows => hno ⟨he, hshows⟩
    · cases hact
  | event e =>
    obtain ⟨hno, heq⟩ := Option.ite_none_left_eq_some.mp hact
    cases heq
    refine (h.name (List.subset_append_right _ _)).reduceLifecycle fun g hg => ⟨?_, ?_⟩
    · exact List.mem_append_left _ (Option.mem_toList.mpr hg)
    · exact fun hshows => hno ⟨g, hg, hshows⟩
  | resume i =>
    obtain ⟨t, ht, hres⟩ := Option.bind_eq_some_iff.mp hact
    exact h.resume (h.tasks t (List.mem_of_getElem? ht)) hres
  | timeout i =>
    simp only [World.act] at hact
    split at hact
    · rename_i hi
      cases hact
      exact h.pause (h.tasks _ (List.mem_of_getElem? hi)).1 i
    · cases hact
  | deadline i =>
    simp only [World.act] at hact
    split at hact
    · cases hact
      exact h.recordFailure i _ _
    · cases hact
  | mutate =>
    simp only [World.act] at hact
    split at hact
    · rename_i m rest hrun hqueue
      cases hact
      have hg : GrowsOnly w { w with queue := rest } :=
        growsOnly_same le_rfl le_rfl (List.Subset.refl _) rfl rfl rfl rfl rfl
      have hrest : Inv { w with queue := rest } :=
        h.grow hg h.requests (fun _ => .inl)
          (fun _ hm => .inl (hqueue ▸ List.mem_cons_of_mem m hm)) fun _ b hr => .inl ⟨b, hr⟩
      have hm : m.Known { w with queue := rest } :=
        (h.queue m (hqueue ▸ List.mem_cons_self)).grow hg.toGrows
      have ht : w.MutationTimely m := hok m (by rw [hqueue]; rfl)
      refine hrest.mutate hm ?_
      cases m with
      | apply => exact ht
      | upsertDevice | upsertRoom | remove => exact True.intro
    · cases hact
  | cached ok =>
    simp only [World.act] at hact
    split at hact
    · rename_i r hr
      split at hact
      · exact h.cacheWritten hr hact
      · cases hact
        exact h.cacheFailed (h.running r false hr)
    · cases hact
  | finish =>
    simp only [World.act] at hact
    split at hact
    · rename_i r hr
      cases hact
      exact h.finish (h.running r true hr)
    · cases hact

lemma Inv.step (h : Inv w) (hok : w.Timely a) (hs : w.step a = some w') : Inv w' := by
  obtain ⟨v, hv, heq⟩ := Option.map_eq_some_iff.mp hs
  cases heq
  exact (h.act hok hv).tick

lemma Inv.initial (server : Summary) (cache : DisplayCache) (named : List Aggregate) :
    Inv (.initial server cache named) where
  requests := by
    intro q hq
    obtain rfl := List.mem_singleton.mp hq
    exact ⟨Nat.zero_le _, le_rfl, nofun⟩
  tasks := by
    intro t ht
    obtain rfl := List.mem_singleton.mp ht
    exact ⟨True.intro, le_rfl⟩
  queue := nofun
  running := nofun
  removed := nofun
  added := nofun

lemma Good.respects {request : ℕ} {d : ConnectionGateData} (h : Good w request d)
    (shown : Aggregate → Bool) : w.Respects ⟨request, d, shown⟩ where
  removed := fun _ _ g t hm _ => h.removed g t hm
  added := fun q hq g t hm hlt _ => absurd hlt (Nat.not_lt_of_le (h.added q hq g t hm))

/-- The three points at which a summary is put in place. -/
lemma Inv.respects (h : Inv w) (hok : w.Timely a) {x : Write} (hx : w.write a = some x) :
    w.Respects x := by
  cases a with
  | cached ok =>
    cases ok with
    | false => cases hx
    | true =>
      simp only [World.write] at hx
      split at hx
      · rename_i hr
        cases hx
        exact Good.respects (h.running _ _ hr).1 _
      · cases hx
  | finish =>
    simp only [World.write] at hx
    split at hx
    · rename_i hr
      obtain ⟨-, heq⟩ := Option.ite_none_right_eq_some.mp hx
      cases heq
      obtain ⟨hgood, hnext, -⟩ := h.running _ _ hr
      have hrespects := hgood.respects w.shown
      exact ⟨fun q hq g t hm hlt => (hnext g).trans (hrespects.removed q hq g t hm hlt),
        fun q hq g t hm hlt hs => (hnext g).trans (hrespects.added q hq g t hm hlt hs)⟩
    · cases hx
  | resume i =>
    simp only [World.write] at hx
    split at hx
    · rename_i hi
      cases hx
      have hk := h.tasks _ (List.mem_of_getElem? hi)
      exact Good.respects (hk.2.2 rfl rfl (hok _ hi)) _
    · cases hx
  | server | snapshot | answer | retryLoad | reconcile | claimAndConfirm | claimed | disconnect
  | disconnected | event | timeout | deadline | mutate => cases hx

end Runs

/-- **A summary does not undo what became known after the request for it**, if every summary is
put in place at the revision of its request. -/
theorem never_undone {server : Summary} {cache : DisplayCache} {named : List Aggregate}
    {as : List Action} (hok : Meets World.step World.Timely (.initial server cache named) as) :
    NeverUndone (.initial server cache named) as := by
  rintro as₁ a as₂ w rfl hr x hx
  have hinv : Inv w := run_invariant (I := Inv) (fun hi ho hs => hi.step ho hs)
    (.initial server cache named) hok.prefix hr
  exact hinv.respects (hok.at hr) hx

/-! ### Samples -/

instance (w : World) (m : Mutation) : Decidable (w.MutationTimely m) :=
  match m with
  | .apply _ p revision _ request =>
    inferInstanceAs (Decidable (∀ q ∈ w.requests[request]?,
      (revision = w.revision → q.revision = w.revision) ∧ ∀ asked ∈ p.asked, asked ≤ q.revision))
  | .upsertDevice _ _ _ | .upsertRoom _ _ _ _ | .remove _ _ _ => .isTrue trivial

instance (w : World) (t : Task) : Decidable (w.TaskTimely t) := by
  unfold World.TaskTimely
  split <;> infer_instance

instance (w : World) (a : Action) : Decidable (w.Timely a) := by
  unfold World.Timely
  split <;> infer_instance

def sampleDevice : Item := ⟨some 1, none, true, "", ""⟩

def sampleRoom (id : ℕ) : Item := ⟨some id, some 1, true, "", ""⟩

def twoRooms : World :=
  .initial ⟨[sampleDevice], [sampleRoom 10, sampleRoom 11]⟩ ⟨[], []⟩ []

/-- The first load, and the request to disconnect a room, which is carried out without an answer. -/
def unanswered : List Action :=
  [.snapshot 0, .answer 0 true, .resume 0, .mutate, .cached true, .finish, .resume 0,
    .disconnect (.room, 10) 5 false, .server ⟨[sampleDevice], [sampleRoom 11]⟩,
    .disconnected 1 (some ⟨false, true⟩), .snapshot 1]

theorem never_undone_sample : NeverUndone twoRooms
    (unanswered ++ [.answer 1 true, .resume 1, .mutate, .cached true, .finish, .resume 1]) :=
  never_undone (by decide +kernel)

/-- Between the request for the summary that confirms and its answer a room is added. -/
def overtaken : List Action :=
  unanswered ++ [.server ⟨[sampleDevice], [sampleRoom 11, sampleRoom 12]⟩,
    .event (.roomCreated (some (sampleRoom 12))), .mutate, .cached true, .finish,
    .answer 1 true, .resume 1, .mutate]

/-- The summary that confirms drops the room from the cache. -/
theorem not_never_undone : ¬ NeverUndone twoRooms (overtaken ++ [.cached true]) := by
  intro h
  have hrun : (run World.step twoRooms overtaken).map (fun w =>
      ((w.write (.cached true)).map fun x =>
        (x.data.contains (.room, 12), x.shown (.room, 12), (w.requests[x.request]?).map (·.started)),
      w.added)) = some (some (false, true, some 10), [((.room, 12), 13)]) := by
    decide +kernel
  obtain ⟨w, hw, hobs⟩ := Option.map_eq_some_iff.mp hrun
  obtain ⟨hwrite, hadded⟩ := Prod.mk.inj hobs
  obtain ⟨x, hx, hobs⟩ := Option.map_eq_some_iff.mp hwrite
  obtain ⟨hdropped, hobs⟩ := Prod.mk.inj hobs
  obtain ⟨hshown, hstarted⟩ := Prod.mk.inj hobs
  obtain ⟨q, hq, hstarted⟩ := Option.map_eq_some_iff.mp hstarted
  have hkept := (h overtaken (.cached true) [] w rfl hw x hx).added q hq (.room, 12) 13
    (hadded ▸ List.mem_singleton_self _) (by omega) hshown
  rw [hdropped] at hkept
  cases hkept

end MouseKeeper.Mobile.ConnectionGate
