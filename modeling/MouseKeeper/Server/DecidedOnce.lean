import Mathlib.Data.List.Nodup
import MouseKeeper.Server.Decisions

/-!
Decisions stay consistent whatever the order of concurrent calls: one for each proposal, one
for each key of a user, and the status of a proposal says which decision it has.
-/

namespace MouseKeeper.Server.Decisions

open MouseKeeper.ReadCommitted

/-- The caller owns the room of the proposal. -/
def Owns (d : Db) (userId proposalId : ℕ) : Prop :=
  ∃ p ∈ d.proposals, p.id = proposalId ∧ ∃ r ∈ d.rooms, r.id = p.roomId ∧ r.userId = userId

/-- What one decision changes. -/
def settle (q : Create) (p : Proposal) (d : Db) : Db :=
  Db.setCommandStatus p.commandId (finalCommandStatus q.decisionType)
    (Db.setProposalStatus q.proposalId (finalProposalStatus q.decisionType)
      (insertDecision q d))

/-- Before any decision: primary keys are unique and no proposal is decided. -/
structure Undecided (d : Db) : Prop where
  ids : (d.proposals.map (·.id)).Nodup
  items : (d.proposalItems.map (·.id)).Nodup
  none : d.decisions = []
  status : ∀ p ∈ d.proposals, ∀ t, p.status ≠ finalProposalStatus t

structure Consistent (d : Db) : Prop where
  ids : (d.proposals.map (·.id)).Nodup
  items : (d.proposalItems.map (·.id)).Nodup
  once : (d.decisions.map (·.proposalId)).Nodup
  keys : (d.decisions.map fun r => (r.userId, r.idempotencyKey)).Nodup
  owners : ∀ r ∈ d.decisions, Owns d r.userId r.proposalId
  complete : ∀ r ∈ d.decisions, r.decisionType = .approve →
    r.approvedItemIds.Nodup ∧ ∀ i, i ∈ r.approvedItemIds ↔ i ∈ d.itemsOf r.proposalId
  status : ∀ p ∈ d.proposals, ∀ t, p.status = finalProposalStatus t ↔
    ∃ r ∈ d.decisions, r.proposalId = p.id ∧ r.decisionType = t

lemma Undecided.consistent {d : Db} (h : Undecided d) : Consistent d where
  ids := h.ids
  items := h.items
  once := by rw [h.none]; exact List.nodup_nil
  keys := by rw [h.none]; exact List.nodup_nil
  owners := by simp [h.none]
  complete := by simp [h.none]
  status p hp t := by simp [h.none, h.status p hp t]

/-! ### The assertion about an open call -/

/-- The proposal is locked and open. -/
structure Ready (d : Db) (held : List Lock) (q : Create) (p : Proposal) : Prop where
  lock : Lock.proposal q.proposalId ∈ held
  mem : p ∈ d.proposals
  id : p.id = q.proposalId
  isOpen : p.status = .open
  owns : Owns d q.userId q.proposalId

/-- The new decision has its entries in the unique indexes. -/
structure Inserted (d : Db) (held : List Lock) (q : Create) (p : Proposal) : Prop extends
    Ready d held q p where
  whole : ¬ PartialApproval (d.itemsOf q.proposalId) q
  key : Lock.decisionKey q.userId q.key ∈ held
  fresh : ∀ r ∈ d.decisions, ¬ SameKey r q

/-- No stored decision answers the request, and none will while the call is open: the key is
taken by another body, or the call keeps out every decision of its user on the proposal. -/
inductive NoAnswer (d : Db) (held : List Lock) (q : Create) : Prop
  | taken {r : Decision} (hr : r ∈ d.decisions) (hk : SameKey r q) (hb : ¬ SameBody r q)
  | kept (h : ∀ r ∈ d.decisions, SameKey r q → ¬ SameBody r q)
    (ho : ¬ Owns d q.userId q.proposalId ∨ Lock.proposal q.proposalId ∈ held)

/-- Where a call stands: what it has changed and what is left of it. -/
inductive Place (d : Db) (held : List Lock) (q : Create) : (Db → Db) → Program → Prop
  | create : Place d held q id (create q)
  | lockProposal : Place d held q id (lockProposal q)
  | concurrentReplay (hl : Lock.proposal q.proposalId ∈ held) :
    Place d held q id (concurrentReplay q)
  | checkItems {p : Proposal} (h : Ready d held q p) : Place d held q id (checkItems q p)
  | tryInsert {p : Proposal} (h : Ready d held q p)
    (hi : ¬ PartialApproval (d.itemsOf q.proposalId) q) : Place d held q id (tryInsert q p)
  | afterConflict (hl : Lock.proposal q.proposalId ∈ held) :
    Place d held q id (afterConflict q)
  | setProposal {p : Proposal} (h : Inserted d held q p) :
    Place d held q (insertDecision q) (setProposal q p)
  | setCommand {p : Proposal} (h : Inserted d held q p) :
    Place d held q (fun d' => Db.setProposalStatus q.proposalId
      (finalProposalStatus q.decisionType) (insertDecision q d')) (setCommand q p)
  | done {p : Proposal} (h : Inserted d held q p) :
    Place d held q (settle q p) (.answer (.ok (publicDecision (newDecision q))))
  | replayed {r : Decision} (hr : r ∈ d.decisions) (hk : SameKey r q) (hb : SameBody r q) :
    Place d held q id (.answer (.ok (publicDecision r)))
  | refused {e : Code} (h : NoAnswer d held q) : Place d held q id (.answer (.error e))

/-- The assertion about an open call. -/
def Assertion (d : Db) (c : Call Create Db Lock Code PublicDecision) : Prop :=
  Place d c.held c.request c.change c.rest

/-! ### Lookups -/

lemma findReplay_some {d : Db} {q : Create} {r : Decision} (h : findReplay d q = some r) :
    r ∈ d.decisions ∧ SameKey r q :=
  ⟨List.mem_of_find?_eq_some h, by simpa using List.find?_some h⟩

lemma findReplay_none {d : Db} {q : Create} (h : findReplay d q = none) :
    ∀ r ∈ d.decisions, ¬ SameKey r q := by
  simpa [findReplay] using h

lemma owned_some {d : Db} {q : Create} {p : Proposal} (h : owned d q = some p) :
    p ∈ d.proposals ∧ p.id = q.proposalId ∧ Owns d q.userId q.proposalId := by
  have hm := List.mem_of_find?_eq_some h
  have hp := List.find?_some h
  simp only [Bool.and_eq_true, decide_eq_true_eq, List.any_eq_true] at hp
  obtain ⟨hid, r, hr, hroom, huser⟩ := hp
  exact ⟨hm, hid, p, hm, hid, r, hr, hroom, huser⟩

lemma owned_none {d : Db} {q : Create} (h : owned d q = none) :
    ¬ Owns d q.userId q.proposalId := by
  rintro ⟨p, hp, hid, r, hr, hroom, huser⟩
  have := List.find?_eq_none.mp h p hp
  simp only [Bool.and_eq_true, decide_eq_true_eq, List.any_eq_true, not_and] at this
  exact this hid ⟨r, hr, hroom, huser⟩

/-- What a stored decision under the key answers. -/
lemma Place.validate {d : Db} {held : List Lock} {q : Create} {r : Decision}
    (hr : r ∈ d.decisions) (hk : SameKey r q) :
    Place d held q id (.answer (validateReplay r q)) := by
  rw [validateReplay]
  split
  · exact .replayed hr hk ‹_›
  · exact .refused (.taken hr hk ‹_›)

/-- No decision of an open proposal is stored. -/
lemma Ready.undecided {d : Db} {held : List Lock} {q : Create} {p : Proposal}
    (hd : Consistent d) (h : Ready d held q p) {r : Decision} (hr : r ∈ d.decisions) :
    r.proposalId ≠ q.proposalId := by
  intro hp
  have := (hd.status p h.mem r.decisionType).mpr ⟨r, hr, hp.trans h.id.symm, rfl⟩
  rw [h.isOpen] at this
  cases ht : r.decisionType <;> simp [ht, finalProposalStatus] at this

lemma NoAnswer.of_fresh {d : Db} {held : List Lock} {q : Create}
    (h : ∀ r ∈ d.decisions, ¬ SameKey r q) (hl : Lock.proposal q.proposalId ∈ held) :
    NoAnswer d held q :=
  .kept (fun r hr hk => absurd hk (h r hr)) (.inr hl)

/-! ### One statement -/

lemma Ready.held_mono {d : Db} {held held' : List Lock} {q : Create} {p : Proposal}
    (h : Ready d held q p) (hs : held ⊆ held') : Ready d held' q p :=
  ⟨hs h.lock, h.mem, h.id, h.isOpen, h.owns⟩

lemma Inserted.held_mono {d : Db} {held held' : List Lock} {q : Create} {p : Proposal}
    (h : Inserted d held q p) (hs : held ⊆ held') : Inserted d held' q p :=
  ⟨h.toReady.held_mono hs, h.whole, hs h.key, h.fresh⟩

/-- **A statement leads from one place to the next.** -/
lemma Assertion.advance {d : Db} {c : Call Create Db Lock Code PublicDecision}
    {locks change next} (hd : Consistent d) (h : Assertion d c)
    (hr : c.rest = .stmt locks change next) : Assertion d (c.advance d locks change next) := by
  obtain ⟨q, held, f, t⟩ := c
  simp only at hr
  subst hr
  simp only [Assertion, Call.advance, Call.view] at h ⊢
  generalize ht : Txn.stmt locks change next = t at h
  cases h with
  | create =>
    cases ht
    simp only [id_eq]
    split
    · rename_i r hf
      exact .validate (findReplay_some hf).1 (findReplay_some hf).2
    · exact .lockProposal
  | lockProposal =>
    cases ht
    simp only [id_eq]
    cases ho : owned d q with
    | none => exact .refused (.kept (fun r hr hk hb => owned_none ho
        (by have := hd.owners r hr; rwa [hk.1, hb.1] at this)) (.inl (owned_none ho)))
    | some p =>
      obtain ⟨hm, hid, ho'⟩ := owned_some ho
      have hl : Lock.proposal q.proposalId ∈ ownedLocks q d ++ held := by
        simp [ownedLocks, ho, hid]
      simp only
      split
      · exact .concurrentReplay hl
      · rename_i hc
        simp only [Closed, not_or, not_not] at hc
        exact .checkItems ⟨hl, hm, hid, hc.1, ho'⟩
  | concurrentReplay hl =>
    cases ht
    simp only [id_eq]
    split
    · rename_i r hf
      exact .validate (findReplay_some hf).1 (findReplay_some hf).2
    · exact .refused (.of_fresh (findReplay_none ‹_›) hl)
  | checkItems h =>
    cases ht
    simp only [id_eq]
    split
    · rename_i p hp
      refine .refused (.kept (fun r hr hk hb => ?_) (.inr h.lock))
      exact h.undecided hd hr hb.1
    · exact .tryInsert h ‹_›
  | @tryInsert p h hi =>
    cases ht
    simp only [id_eq]
    by_cases hc : Conflicts d q
    · simp only [hc, if_true]
      exact .afterConflict (List.mem_append_right _ h.lock)
    · simp only [hc, if_false]
      have hkey : Lock.decisionKey q.userId q.key ∈ insertLocks q d ++ held := by
        simp [insertLocks, hc]
      refine .setProposal ⟨h.held_mono (List.subset_append_right _ _), hi, hkey,
        fun r hr hk => hc ⟨r, hr, .inr (.inl hk)⟩⟩
  | afterConflict hl =>
    cases ht
    simp only [id_eq]
    split
    · exact .refused (.of_fresh (findReplay_none ‹_›) hl)
    · rename_i r hf
      exact .validate (findReplay_some hf).1 (findReplay_some hf).2
  | setProposal h =>
    cases ht
    exact .setCommand (h.held_mono (List.subset_append_right _ _))
  | setCommand h =>
    cases ht
    exact .done (h.held_mono (List.subset_append_right _ _))
  | done _ => cases ht
  | replayed _ _ _ => cases ht
  | refused _ => cases ht

/-! ### What a commit changes -/

@[simp] lemma settle_decisions (q : Create) (p : Proposal) (d : Db) :
    (settle q p d).decisions = d.decisions ++ [newDecision q] := rfl

lemma settle_proposals (q : Create) (p : Proposal) (d : Db) : (settle q p d).proposals =
    d.proposals.map fun x => if x.id = q.proposalId
      then { x with status := finalProposalStatus q.decisionType } else x := rfl

lemma mem_settle_proposals {q : Create} {p x : Proposal} {d : Db} :
    x ∈ (settle q p d).proposals ↔ (x ∈ d.proposals ∧ x.id ≠ q.proposalId) ∨
      ∃ y ∈ d.proposals, y.id = q.proposalId ∧
        x = { y with status := finalProposalStatus q.decisionType } := by
  rw [settle_proposals, List.mem_map]
  constructor
  · rintro ⟨y, hy, rfl⟩
    split
    · exact .inr ⟨y, hy, ‹_›, rfl⟩
    · exact .inl ⟨hy, ‹_›⟩
  · rintro (⟨hx, hid⟩ | ⟨y, hy, hid, rfl⟩)
    · exact ⟨x, hx, if_neg hid⟩
    · exact ⟨y, hy, if_pos hid⟩

lemma owns_settle {q : Create} {p : Proposal} {d : Db} {u i : ℕ} :
    Owns (settle q p d) u i ↔ Owns d u i := by
  constructor
  · rintro ⟨x, hx, hid, hroom⟩
    rcases mem_settle_proposals.mp hx with ⟨hx, -⟩ | ⟨y, hy, -, rfl⟩
    · exact ⟨x, hx, hid, hroom⟩
    · exact ⟨y, hy, hid, hroom⟩
  · rintro ⟨x, hx, hid, hroom⟩
    by_cases hq : x.id = q.proposalId
    · exact ⟨_, mem_settle_proposals.mpr (.inr ⟨x, hx, hq, rfl⟩), hid, hroom⟩
    · exact ⟨x, mem_settle_proposals.mpr (.inl ⟨hx, hq⟩), hid, hroom⟩

/-- A call that is about to commit has replayed, or settles its proposal. -/
lemma Place.commit {d : Db} {held : List Lock} {q : Create} {f : Db → Db}
    {a : PublicDecision} (h : Place d held q f (.answer (.ok a))) :
    (f = id ∧ ∃ r ∈ d.decisions, SameKey r q ∧ SameBody r q ∧ a = publicDecision r) ∨
      ∃ p, Inserted d held q p ∧ f = settle q p ∧ a = publicDecision (newDecision q) := by
  cases h with
  | done h => exact .inr ⟨_, h, rfl, rfl⟩
  | replayed hr hk hb => exact .inl ⟨rfl, _, hr, hk, hb, rfl⟩

section Stable

variable {d : Db} {held held' : List Lock} {q q' : Create} {p p' : Proposal}

/-- A proposal that another call has locked is not the one being settled. -/
lemma Inserted.ne (h : Inserted d held q p) (hd : List.Disjoint held held')
    (hl : Lock.proposal q'.proposalId ∈ held') : q'.proposalId ≠ q.proposalId := by
  intro he
  rw [he] at hl
  exact hd h.lock hl

lemma Inserted.settle_ready (h : Inserted d held q p) (hd : List.Disjoint held held')
    (h' : Ready d held' q' p') : Ready (settle q p d) held' q' p' where
  lock := h'.lock
  mem := mem_settle_proposals.mpr
    (.inl ⟨h'.mem, by rw [h'.id]; exact h.ne hd h'.lock⟩)
  id := h'.id
  isOpen := h'.isOpen
  owns := owns_settle.mpr h'.owns

lemma Inserted.settle_inserted (h : Inserted d held q p) (hd : List.Disjoint held held')
    (h' : Inserted d held' q' p') : Inserted (settle q p d) held' q' p' where
  toReady := h.settle_ready hd h'.toReady
  whole := h'.whole
  key := h'.key
  fresh r hr hk := by
    rcases List.mem_append.mp hr with hr | hr
    · exact h'.fresh r hr hk
    · rw [List.mem_singleton.mp hr] at hk
      refine hd h.key ?_
      rw [show q.userId = q'.userId from hk.1, show q.key = q'.key from hk.2]
      exact h'.key

lemma Inserted.settle_noAnswer (h : Inserted d held q p) (hd : List.Disjoint held held')
    (h' : NoAnswer d held' q') : NoAnswer (settle q p d) held' q' := by
  cases h' with
  | taken hr hk hb => exact .taken (List.mem_append_left _ hr) hk hb
  | kept hn ho =>
    refine .kept (fun r hr hk hb => ?_) (ho.imp (mt owns_settle.mp) id)
    rcases List.mem_append.mp hr with hr | hr
    · exact hn r hr hk hb
    · rw [List.mem_singleton.mp hr] at hk hb
      rcases ho with ho | ho
      · refine ho ?_
        rw [← show q.userId = q'.userId from hk.1, ← show q.proposalId = q'.proposalId from hb.1]
        exact h.owns
      · exact h.ne hd ho (show q.proposalId = q'.proposalId from hb.1).symm

/-- **The place of a call survives the commits of the others.** -/
lemma Inserted.settle_place {f : Db → Db} {t : Program} (h : Inserted d held q p)
    (hd : List.Disjoint held held') (h' : Place d held' q' f t) :
    Place (settle q p d) held' q' f t := by
  cases h' with
  | create => exact .create
  | lockProposal => exact .lockProposal
  | concurrentReplay hl => exact .concurrentReplay hl
  | checkItems h' => exact .checkItems (h.settle_ready hd h')
  | tryInsert h' hi => exact .tryInsert (h.settle_ready hd h') hi
  | afterConflict hl => exact .afterConflict hl
  | setProposal h' => exact .setProposal (h.settle_inserted hd h')
  | setCommand h' => exact .setCommand (h.settle_inserted hd h')
  | done h' => exact .done (h.settle_inserted hd h')
  | replayed hr hk hb => exact .replayed (List.mem_append_left _ hr) hk hb
  | refused h' => exact .refused (h.settle_noAnswer hd h')

end Stable

/-! ### The invariant -/

/-- An approval that is not partial names exactly the items. -/
lemma whole_approval {items : List ℕ} {q : Create} (hn : items.Nodup)
    (ht : q.decisionType = .approve) (h : ¬ PartialApproval items q) :
    q.approvedItemIds.Nodup ∧ ∀ i, i ∈ q.approvedItemIds ↔ i ∈ items := by
  simp only [PartialApproval, ht, true_and, not_or, not_not, not_exists, not_and] at h
  obtain ⟨hlen, hsub⟩ := h
  have hp : items.Perm q.approvedItemIds :=
    (List.subperm_of_subset hn hsub).perm_of_length_le (Nat.le_of_eq hlen)
  exact ⟨hp.nodup_iff.mp hn, fun i => hp.mem_iff.symm⟩

lemma itemsOf_nodup {d : Db} (h : (d.proposalItems.map (·.id)).Nodup) (i : ℕ) :
    (d.itemsOf i).Nodup :=
  h.sublist (List.filter_sublist.map _)

lemma finalProposalStatus_injective {t t' : DecisionType}
    (h : finalProposalStatus t = finalProposalStatus t') : t = t' := by
  cases t <;> cases t' <;> simp_all [finalProposalStatus]

/-- **Settling a proposal keeps the tables consistent.** -/
lemma Consistent.settle {d : Db} {held : List Lock} {q : Create} {p : Proposal}
    (hd : Consistent d) (h : Inserted d held q p) : Consistent (settle q p d) where
  ids := by
    have hm : (Decisions.settle q p d).proposals.map (·.id) = d.proposals.map (·.id) := by
      rw [settle_proposals, List.map_map]
      refine List.map_congr_left fun x _ => ?_
      simp only [Function.comp_apply]
      split <;> rfl
    rw [hm]
    exact hd.ids
  items := hd.items
  once := by
    rw [settle_decisions, List.map_append, List.map_singleton]
    refine List.nodup_append.mpr ⟨hd.once, by simp, ?_⟩
    intro a ha b hb
    obtain ⟨r, hr, rfl⟩ := List.mem_map.mp ha
    rw [List.mem_singleton.mp hb]
    exact h.undecided hd hr
  keys := by
    rw [settle_decisions, List.map_append, List.map_singleton]
    refine List.nodup_append.mpr ⟨hd.keys, by simp, ?_⟩
    intro a ha b hb hab
    obtain ⟨r, hr, rfl⟩ := List.mem_map.mp ha
    rw [List.mem_singleton.mp hb, Prod.mk.injEq] at hab
    exact h.fresh r hr hab
  owners r hr := by
    rw [owns_settle]
    rcases List.mem_append.mp hr with hr | hr
    · exact hd.owners r hr
    · rw [List.mem_singleton.mp hr]
      exact h.owns
  complete r hr ht := by
    rcases List.mem_append.mp hr with hr | hr
    · exact hd.complete r hr ht
    · rw [List.mem_singleton.mp hr] at ht ⊢
      exact whole_approval (itemsOf_nodup hd.items _) ht h.whole
  status x hx t := by
    rw [settle_decisions]
    rcases mem_settle_proposals.mp hx with ⟨hx, hid⟩ | ⟨y, hy, hid, rfl⟩
    · rw [hd.status x hx t]
      constructor
      · rintro ⟨r, hr, hp, ht⟩
        exact ⟨r, List.mem_append_left _ hr, hp, ht⟩
      · rintro ⟨r, hr, hp, ht⟩
        rcases List.mem_append.mp hr with hr | hr
        · exact ⟨r, hr, hp, ht⟩
        · rw [List.mem_singleton.mp hr] at hp
          exact absurd hp.symm hid
    · constructor
      · intro hs
        exact ⟨newDecision q, by simp, hid.symm, finalProposalStatus_injective hs⟩
      · rintro ⟨r, hr, hp, ht⟩
        rcases List.mem_append.mp hr with hr | hr
        · exact absurd (hp.trans hid) (h.undecided hd hr)
        · rw [← ht, List.mem_singleton.mp hr]
          rfl

theorem rules : Rules create always Consistent Assertion where
  start _ _ := .create
  stmt hd h _ hr := h.advance hd hr
  commit {d c a} hd h hr := by
    rw [Assertion, hr] at h
    rcases h.commit with ⟨hf, -⟩ | ⟨p, hi, hf, -⟩
    · rwa [Call.view, hf]
    · rw [Call.view, hf]
      exact hd.settle hi
  stable {d c c' a} _ h hr h' hdis := by
    rw [Assertion, hr] at h
    rcases h.commit with ⟨hf, -⟩ | ⟨p, hi, hf, -⟩
    · rwa [Call.view, hf]
    · rw [Call.view, hf]
      exact hi.settle_place hdis h'

/-! ### What a call answers -/

/-- Two stored decisions of one user under one key are one. -/
lemma Consistent.key_unique {d : Db} (hd : Consistent d) {q : Create} {r r' : Decision}
    (hr : r ∈ d.decisions) (hr' : r' ∈ d.decisions) (hk : SameKey r q) (hk' : SameKey r' q) :
    r = r' :=
  List.inj_on_of_nodup_map hd.keys hr hr' (by rw [hk.1, hk.2, hk'.1, hk'.2])

/-- A call that commits hands out a stored decision; if its key was already taken, that is
the decision under the key, and nothing changes. -/
lemma Place.answered {d : Db} {held : List Lock} {q : Create} {f : Db → Db}
    {a : PublicDecision} (hd : Consistent d) (h : Place d held q f (.answer (.ok a))) :
    (∃ r ∈ (f d).decisions, SameKey r q ∧ SameBody r q ∧ a = publicDecision r) ∧
    ∀ r ∈ d.decisions, SameKey r q → SameBody r q ∧ a = publicDecision r ∧ f d = d := by
  rcases h.commit with ⟨rfl, r, hr, hk, hb, ha⟩ | ⟨p, hi, rfl, ha⟩
  · refine ⟨⟨r, hr, hk, hb, ha⟩, fun r' hr' hk' => ?_⟩
    rw [hd.key_unique hr' hr hk' hk]
    exact ⟨hb, ha, rfl⟩
  · exact ⟨⟨newDecision q, by simp, ⟨rfl, rfl⟩, ⟨rfl, rfl, rfl⟩, ha⟩,
      fun r hr hk => absurd hk (hi.fresh r hr)⟩

/-- A refused call has no stored decision to hand out. -/
lemma Place.noAnswer {d : Db} {held : List Lock} {q : Create} {f : Db → Db} {e : Code}
    (hd : Consistent d) (h : Place d held q f (.answer (.error e))) :
    ∀ r ∈ d.decisions, SameKey r q → ¬ SameBody r q := by
  cases h with
  | refused h =>
    intro r hr hk
    cases h with
    | taken hr' hk' hb => exact hd.key_unique hr' hr hk' hk ▸ hb
    | kept h _ => exact h r hr hk

/-- One open proposal with two items. -/
def sampleDb : Db where
  devices := []
  rooms := [⟨3, 1, 9, true⟩]
  commands := [⟨5, 3, 9, .waitingApproval⟩]
  proposals := [⟨7, 5, 3, .open, "p", none⟩]
  proposalItems := [⟨11, 7⟩, ⟨12, 7⟩]
  decisions := []
  executions := []

end MouseKeeper.Server.Decisions
