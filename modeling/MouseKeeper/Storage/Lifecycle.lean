import MouseKeeper.Storage.Connections
import MouseKeeper.Storage.Rules
import MouseKeeper.Storage.Transfers

/-!
The statuses of a transfer under all requests that write it.

Every request but one takes the row from a list of statuses that it may leave. `cancel` has a list
of statuses that it may not leave, and `FAILED` is not in it.
-/

namespace MouseKeeper.Storage.Lifecycle

open MouseKeeper.ReadCommitted
open Transfers (Create UploadTarget Complete Fail Ack Cancel Response Environment publicTransfer)
open Connections (RemoveRoom RevokeDevice)

/-! ### The system -/

inductive Request
  | create (q : Create)
  | uploadTarget (q : UploadTarget)
  | complete (q : Complete)
  | fail (q : Fail)
  | ack (q : Ack)
  | cancel (q : Cancel)
  | expire (transferId : ℕ)
  | removeRoom (q : RemoveRoom)
  | revokeDevice (q : RevokeDevice)
  | tick (now : ℕ)

/-- A request with the connection that serves it. -/
abbrev Served := Backend × Request

/-- The clock goes on. -/
def tick (now : ℕ) : Storage.Program Response :=
  .write (fun _ => []) (fun _ d => { d with now := max d.now now }) (.answer (.ok .nothing))

def body (env : Environment) : Served → Storage.Program Response
  | (b, .create q) => Transfers.create env b q
  | (_, .uploadTarget q) => Transfers.uploadTarget env q
  | (b, .complete q) => Transfers.complete b q
  | (b, .fail q) => Transfers.fail b q
  | (b, .ack q) => Transfers.ack b q
  | (b, .cancel q) => Transfers.cancel b q
  | (b, .expire id) => Transfers.expire b id
  | (b, .removeRoom q) => Connections.removeRoom b q .nothing
  | (b, .revokeDevice q) => Connections.revokeDevice b q .nothing
  | (_, .tick now) => tick now

/-! ### The claim -/

/-- The statuses that follow on a status. -/
def next : TransferStatus → List TransferStatus
  | .requested => [.uploading, .failed, .cancelled, .expired]
  | .uploading => [.ready, .failed, .cancelled, .expired]
  | .ready => [.completed, .cancelled, .expired]
  | .completed | .failed | .cancelled | .expired => []

/-- Any number of steps on. -/
def Leads : TransferStatus → TransferStatus → Prop :=
  Relation.ReflTransGen fun a b => b ∈ next a

/-- A row that has the object, its size and its checksum. -/
structure Stored (t : Transfer) : Prop where
  objectKey : t.objectKey.isSome
  sizeBytes : t.sizeBytes.isSome
  sha256 : t.sha256.isSome

/-- A later version of a transfer. -/
structure Later (t t' : Transfer) : Prop where
  id : t'.id = t.id
  user : t'.requestedByUserId = t.requestedByUserId
  key : t'.idempotencyKey = t.idempotencyKey
  status : Leads t.status t'.status
  final : next t.status = [] → t' = t
  stored : t.status = .ready →
    t'.objectKey = t.objectKey ∧ t'.sizeBytes = t.sizeBytes ∧ t'.sha256 = t.sha256

/-- Every transfer goes on in a later version of itself. -/
def Follows (d d' : Db) : Prop := ∀ t ∈ d.transfers, ∃ t' ∈ d'.transfers, Later t t'

/-- One row for each transfer, and what is ready is stored. -/
structure Orderly (d : Db) : Prop where
  ids : (d.transfers.map (·.id)).Nodup
  ready : ∀ t ∈ d.transfers, t.status = .ready → Stored t

/-- The two requests differ at most in the new identifier that they have drawn, in what Redis and
the object storage have answered, and in the connection. -/
def SameArguments : Request → Request → Prop
  | .create q, .create q' => q'.userId = q.userId ∧ q'.roomId = q.roomId ∧ q'.key = q.key ∧
      q'.sourceRelativePath = q.sourceRelativePath
  | .uploadTarget q, .uploadTarget q' => q' = q
  | .complete q, .complete q' => { q' with storedSize := none } = { q with storedSize := none }
  | .fail q, .fail q' => q' = q
  | .ack q, .ack q' => q' = q
  | .cancel q, .cancel q' => q' = q
  | _, _ => False

/-- The transfer that the request is about. -/
def About : Request → Transfer → Prop
  | .create q, t => Transfers.hasKey q.userId q.key t
  | .uploadTarget q, t => t.id = q.transferId
  | .complete q, t => t.id = q.transferId
  | .fail q, t => t.id = q.transferId
  | .ack q, t => t.id = q.transferId
  | .cancel q, t => t.id = q.transferId
  | _, _ => False

/-- The answer is the transfer of the request, as it is or as it was when it was read. -/
def Current (d : Db) (q : Request) (r : Response) : Prop :=
  ∃ t, About q t ∧ r = .transfer (publicTransfer t) ∧ ∃ t' ∈ d.transfers, Later t t'

/-- No `cancel` has a failed transfer before it when it has taken the lock. -/
def NoLateCancel : Cond Served Db Lock Code Response := fun _ c =>
  ∀ b q t, c.request = (b, .cancel q) → c.rest = Transfers.cancelLocked b q t → t.status ≠ .failed

/-! ### Later versions -/

/-- What is ready stays ready or comes to an end. -/
lemma ready_leads {a : TransferStatus} (h : Leads .ready a) : a = .ready ∨ next a = [] := by
  induction h with
  | refl => exact .inl rfl
  | tail _ hs ih =>
    rcases ih with rfl | hf
    · simp only [next, List.mem_cons, List.not_mem_nil, or_false] at hs
      rcases hs with rfl | rfl | rfl <;> exact .inr rfl
    · rw [hf] at hs
      cases hs

lemma requested_of_leads {a : TransferStatus} (h : Leads a .requested) : a = .requested := by
  cases h with
  | refl => rfl
  | @tail b _ _ hs => cases b <;> simp [next] at hs

lemma uploading_of_leads {a : TransferStatus} (h : Leads a .uploading) :
    a ∈ [TransferStatus.requested, .uploading] := by
  cases h with
  | refl => decide
  | @tail b _ h hs =>
    have hb : b = .requested := by cases b <;> simp [next] at hs ⊢
    rw [hb] at h
    rw [requested_of_leads h]
    decide

lemma Later.refl (t : Transfer) : Later t t :=
  ⟨rfl, rfl, rfl, .refl, fun _ => rfl, fun _ => ⟨rfl, rfl, rfl⟩⟩

lemma Later.trans {a b c : Transfer} (h : Later a b) (h' : Later b c) : Later a c where
  id := h'.id.trans h.id
  user := h'.user.trans h.user
  key := h'.key.trans h.key
  status := h.status.trans h'.status
  final := by
    intro hf
    have hb := h.final hf
    rw [h'.final (hb ▸ hf), hb]
  stored := by
    intro hr
    have hb := h.stored hr
    rcases ready_leads (hr ▸ h.status) with hready | hf
    · have hc := h'.stored hready
      exact ⟨hc.1.trans hb.1, hc.2.1.trans hb.2.1, hc.2.2.trans hb.2.2⟩
    · rw [h'.final hf]
      exact hb

/-- The transfers under the protocol of rows. -/
def spec : RowSpec Transfer Lock where
  id := Transfer.id
  lock := .transfer
  entries t := [.transfer t.id, .transferKey t.requestedByUserId t.idempotencyKey]
  later := Later
  refl := .refl
  trans := .trans
  later_id := Later.id
  later_entries h := by rw [h.id, h.user, h.key]

/-- What is ready is stored. -/
def Fine (t : Transfer) : Prop := t.status = .ready → Stored t

def protocol : Protocol Db Lock where
  inv := Orderly
  rely held d d' := RowRely spec held d.transfers d'.transfers
  refl held d := .refl spec held d.transfers
  trans := RowRely.trans

/-! ### Repeated requests -/

/-- The transfer is past what the request can do. -/
def Settled : Request → Db → Prop
  | .create q, d => ∃ t ∈ d.transfers, Transfers.hasKey q.userId q.key t
  | .uploadTarget q, d => ∃ t ∈ d.transfers, t.id = q.transferId ∧ t.status ≠ .requested
  | .complete q, d => ∃ t ∈ d.transfers, t.id = q.transferId ∧
      t.status ∉ [TransferStatus.requested, .uploading]
  | .fail q, d => ∃ t ∈ d.transfers, t.id = q.transferId ∧ next t.status = []
  | .ack q, d => ∃ t ∈ d.transfers, t.id = q.transferId ∧ next t.status = []
  | .cancel q, d => ∃ t ∈ d.transfers, t.id = q.transferId ∧ next t.status = []
  | _, _ => False

/-- A request settles its transfer, and does nothing to one that is settled. -/
def post : Post Served Db Response := fun q d d' r =>
  (Settled q.2 d → d'.transfers = d.transfers ∧ Current d q.2 r) ∧
    (SameArguments q.2 q.2 → Settled q.2 d')

lemma Later.settled {t t' : Transfer} (h : Later t t') (hf : next t.status = []) :
    next t'.status = [] := by
  rw [h.final hf]
  exact hf

lemma Settled.follows {q : Request} {d d' : Db} (h : Settled q d) (hd : Follows d d') :
    Settled q d' := by
  cases q with
  | create q =>
    obtain ⟨t, ht, hkey⟩ := h
    obtain ⟨t', ht', hl⟩ := hd t ht
    refine ⟨t', ht', ?_⟩
    rwa [Transfers.hasKey, hl.user, hl.key]
  | uploadTarget q =>
    obtain ⟨t, ht, hid, hs⟩ := h
    obtain ⟨t', ht', hl⟩ := hd t ht
    exact ⟨t', ht', hl.id.trans hid, fun heq => hs (requested_of_leads (heq ▸ hl.status))⟩
  | complete q =>
    obtain ⟨t, ht, hid, hs⟩ := h
    obtain ⟨t', ht', hl⟩ := hd t ht
    refine ⟨t', ht', hl.id.trans hid, fun hm => hs ?_⟩
    rcases List.mem_pair.mp hm with heq | heq
    · have hr : t.status = .requested := requested_of_leads (heq ▸ hl.status)
      exact hr ▸ List.mem_cons_self
    · exact uploading_of_leads (heq ▸ hl.status)
  | fail q | ack q | cancel q =>
    obtain ⟨t, ht, hid, hs⟩ := h
    obtain ⟨t', ht', hl⟩ := hd t ht
    exact ⟨t', ht', hl.id.trans hid, hl.settled hs⟩
  | expire | removeRoom | revokeDevice | tick => exact h

lemma SameArguments.left {q q' : Request} (h : SameArguments q q') : SameArguments q q := by
  cases q <;> cases q' <;> first | exact h.elim | simp [SameArguments]

lemma SameArguments.settled {q q' : Request} {d : Db} (h : SameArguments q q')
    (hs : Settled q d) : Settled q' d := by
  cases q <;> cases q' <;> try exact h.elim
  case create.create q q' =>
    obtain ⟨hu, -, hk, -⟩ := h
    rw [Settled] at hs ⊢
    rwa [hu, hk]
  case complete.complete q q' =>
    have heq : { q' with storedSize := none } = { q with storedSize := none } := h
    have hid : q'.transferId = q.transferId := (congrArg Complete.transferId heq :)
    rw [Settled] at hs ⊢
    rwa [hid]
  all_goals
    obtain rfl := h
    exact hs

/-! ### Statements under the protocol -/

section Statements

variable {q : Served} {held : List Lock} {f : Db → Db} {d : Db} {e : RowEffect Transfer}

/-- What is left of a request keeps the protocol. -/
abbrev Keeps (q : Served) (t : Storage.Program Response) (held : List Lock) (f : Db → Db)
    (d : Db) : Prop :=
  t.Keeps protocol NoLateCancel post q held f d

/-- What the change does to the transfers. -/
def Does (f : Db → Db) (e : RowEffect Transfer) : Prop :=
  ∀ d, (f d).transfers = e.apply Transfer.id d.transfers

/-- The effect of the call, which it can commit. -/
structure Effects (held : List Lock) (f : Db → Db) (d : Db) (e : RowEffect Transfer) : Prop where
  does : Does f e
  enabled : e.Enabled spec Fine held d.transfers

lemma Effects.rely {held' : List Lock} {d' : Db} (h : Effects held f d e)
    (hd : RowRely spec held d.transfers d'.transfers) (hs : held ⊆ held') :
    Effects held' f d' e :=
  ⟨h.does, (h.enabled.rely hd).mono hs⟩

lemma Effects.none (held : List Lock) (d : Db) : Effects held id d .none :=
  ⟨fun _ => rfl, True.intro⟩

lemma keeps_answer {r : Response} (h : Effects held f d e)
    (hpost : ∀ d', RowRely spec held d.transfers d'.transfers → Orderly d' → post q d' (f d') r) :
    Keeps q (.answer (.ok r)) held f d := by
  intro d' hd hi _
  have h' := h.rely hd (List.Subset.refl held)
  have heq : (f d').transfers = e.apply Transfer.id d'.transfers := h.does d'
  refine ⟨⟨?_, ?_⟩, fun held' hdis => ?_, hpost d' hd hi⟩
  · rw [heq]
    exact h'.enabled.nodup hi.ids
  · rw [heq]
    exact h'.enabled.allFine hi.ready
  · change RowRely spec held' d'.transfers (f d').transfers
    rw [heq]
    exact h'.enabled.guarantee hdis

/-- The answer with a transfer that has been read. -/
lemma keeps_current {t : Transfer} (ht : t ∈ d.transfers) (ha : About q.2 t)
    (hs : Settled q.2 d) : Keeps q (Transfers.answer t) held id d := by
  refine keeps_answer (.none held d) fun d' hd _ => ⟨fun _ => ⟨rfl, t, ha, rfl, hd.later t ht⟩, ?_⟩
  exact fun _ => hs.follows hd.later

/-- The answer of a call that has changed a row which it found in a status to leave. -/
lemma keeps_changed {t : Transfer} {ids : List ℕ} {set : Transfer → Transfer} {r : Response}
    (h : Effects held f d (.change ids set)) (ht : t ∈ d.transfers) (hid : t.id ∈ ids)
    (hbefore : ∀ d', Orderly d' → t ∈ d'.transfers → ¬ Settled q.2 d')
    (hafter : ∀ d', set t ∈ d'.transfers → Settled q.2 d') :
    Keeps q (.answer (.ok r)) held f d := by
  refine keeps_answer h fun d' hd hi => ?_
  have ht' := (hd.locked t (h.enabled t hid).1).mp ht
  refine ⟨fun hs => absurd hs (hbefore d' hi ht'), fun _ => hafter (f d') ?_⟩
  rw [h.does d']
  exact mem_setRows_of_mem ht' hid

lemma keeps_deleteObject {t : Transfer} {p : Storage.Program Response} (h : Effects held f d e)
    (hp : ∀ f' d', RowRely spec held d.transfers d'.transfers → Effects held f' d' e →
      Keeps q p held f' d') : Keeps q (Transfers.deleteObject t p) held f d := by
  refine keeps_clock fun d₁ h₁ _ => keeps_modify fun d₂ h₂ _ => ?_
  have hd : RowRely spec held d.transfers d₂.transfers := RowRely.trans h₁ h₂
  exact hp _ d₂ hd ⟨fun x => h.does x, (h.rely hd (List.Subset.refl held)).enabled⟩

/-- The connection is active, or it is not; the transfers do not depend on it. -/
lemma keeps_connection {b : Backend} {userId deviceId roomId : ℕ}
    {noDevice noRoom p : Storage.Program Response}
    (h : ∀ held' d', held ⊆ held' → RowRely spec held d.transfers d'.transfers →
      Keeps q noDevice held' f d' ∧ Keeps q noRoom held' f d' ∧ Keeps q p held' f d') :
    Keeps q (lockConnection b userId deviceId roomId noDevice noRoom p) held f d := by
  refine keeps_lockConnection
    (fun d₁ h₁ _ _ => (h held d₁ (List.Subset.refl held) h₁).1) fun v d₁ h₁ _ _ d₂ h₂ _ => ?_
  have hs := List.subset_append_right (b.share (.device deviceId)) held
  have hd : RowRely spec held d.transfers d₂.transfers := RowRely.trans h₁ (RowRely.mono h₂ hs)
  exact ⟨fun _ => (h _ d₂ hs hd).2.1, fun _ _ =>
    (h _ d₂ (List.Subset.trans hs (List.subset_append_right _ _)) hd).2.2⟩

lemma keeps_owned {userId transferId : ℕ} {deviceId : Option ℕ}
    {p : Transfer → Storage.Program Response}
    (h : ∀ t d', RowRely spec held d.transfers d'.transfers → Keeps q (p t) held f d') :
    Keeps q (Transfers.owned userId transferId deviceId p) held f d := by
  refine keeps_select fun d₁ h₁ _ => ?_
  split
  · exact True.intro
  · exact h _ d₁ h₁

/-- The row that has been found and locked. -/
lemma keeps_lockOwned {b : Backend} {userId transferId : ℕ} {deviceId : Option ℕ}
    {p : Transfer → Storage.Program Response}
    (h : ∀ t held' d', RowRely spec held d.transfers d'.transfers → Orderly d' →
      t ∈ d'.transfers → t.id = transferId → Lock.transfer t.id ∈ held' →
      Keeps q (p t) held' id d') :
    Keeps q (Transfers.lockOwned b userId transferId deviceId p) held id d := by
  refine keeps_select fun d₁ h₁ _ => ?_
  split
  · exact True.intro
  refine keeps_connection fun held' d₂ hs h₂ => ⟨True.intro, True.intro, ?_⟩
  refine keeps_selectFor fun d₃ h₃ i₃ => ?_
  split
  · exact True.intro
  · rename_i t ht
    have hcond := List.find?_some ht
    simp only [Bool.and_eq_true, decide_eq_true_eq] at hcond
    have hd : RowRely spec held d.transfers d₃.transfers :=
      (RowRely.trans h₁ h₂).trans (RowRely.mono h₃ hs)
    refine h t _ d₃ hd i₃ (List.mem_of_find?_eq_some ht) hcond.1.1.1 ?_
    rw [ht]
    exact List.mem_cons_self

/-- The update of some rows, each to a later version. -/
lemma keeps_change {cond : Transfer → Bool} {set : Transfer → Transfer}
    {p : List Transfer → Storage.Program Response} (h₀ : Effects held f d .none)
    (hset : ∀ d', RowRely spec held d.transfers d'.transfers → Orderly d' →
      ∀ t ∈ d'.transfers, cond t → Later t (set t) ∧ Fine (set t))
    (h : ∀ held' f' d', RowRely spec held d.transfers d'.transfers → Orderly d' →
      Effects held' f' d' (.change (transfers.ids cond d') set) →
      Keeps q (p ((transfers.matching cond d').map set)) held' f' d') :
    Keeps q (transfers.update cond set p) held f d := by
  refine keeps_update fun d' hd hi => ?_
  have hrows : (f d').transfers = d'.transfers := h₀.does d'
  have hids : transfers.ids cond (f d') = transfers.ids cond d' := by
    rw [Table.ids, Table.matching, Table.ids, Table.matching]
    exact congrArg (fun rows => (List.filter cond rows).map Transfer.id) hrows
  have hmatching : transfers.matching cond (f d') = transfers.matching cond d' :=
    congrArg (List.filter cond) hrows
  rw [hmatching, hids]
  refine h _ _ d' hd hi ⟨fun x => ?_, fun t ht => ?_⟩
  · exact congrArg (setRows Transfer.id (transfers.ids cond d') set) (h₀.does x)
  · refine ⟨List.mem_append_left _ ?_, fun hm => ?_⟩
    · exact List.mem_flatMap.mpr ⟨t.id, ht, List.mem_singleton_self _⟩
    · obtain ⟨u, hu, hid⟩ := List.mem_map.mp ht
      obtain ⟨hu, hcond⟩ := List.mem_filter.mp hu
      rw [← eq_of_id_eq (Orderly.ids hi) hu hm hid]
      exact hset d' hd hi u hu hcond

/-- The update of another table. -/
lemma keeps_aside {β : Type} {T : Table β} {cond : β → Bool} {set : β → β}
    {p : List β → Storage.Program Response} (hT : ∀ rows x, (T.put rows x).transfers = x.transfers)
    (h : Effects held f d e)
    (hp : ∀ rows held' f' d', Effects held' f' d' e → Keeps q (p rows) held' f' d') :
    Keeps q (T.update cond set p) held f d := by
  refine keeps_update fun d' hd _ => hp _ _ _ d' ?_
  have h' := h.rely hd (List.subset_append_right ((T.ids cond (f d')).flatMap T.locks) held)
  exact ⟨fun x => (hT _ _).trans (h.does x), h'.enabled⟩

lemma keeps_modify_aside {change : Db → Db} {p : Storage.Program Response}
    (hc : ∀ x, (change x).transfers = x.transfers) (h : Effects held f d e)
    (hp : ∀ f' d', Effects held f' d' e → Keeps q p held f' d') :
    Keeps q (modify change p) held f d := by
  refine keeps_modify fun d' hd _ => hp _ d' ?_
  exact ⟨fun x => (hc _).trans (h.does x), (h.rely hd (List.Subset.refl held)).enabled⟩

/-- The update of the one row that has been locked. -/
lemma keeps_leave {t : Transfer} {cond : Transfer → Bool} {set : Transfer → Transfer}
    {p : List Transfer → Storage.Program Response} (ht : t ∈ d.transfers)
    (hl : Lock.transfer t.id ∈ held) (hcond : cond t) (honly : ∀ u, cond u → u.id = t.id)
    (hset : Later t (set t) ∧ Fine (set t))
    (h : ∀ rows held' f' d', t ∈ d'.transfers →
      Effects held' f' d' (.change (transfers.ids cond d') set) → t.id ∈ transfers.ids cond d' →
      Keeps q (p (set t :: rows)) held' f' d') :
    Keeps q (transfers.update cond set p) held id d := by
  have hone : ∀ d', RowRely spec held d.transfers d'.transfers → Orderly d' →
      t ∈ d'.transfers ∧ ∀ u ∈ d'.transfers, cond u → u = t := fun d' hd hi =>
    have ht' := (hd.locked t hl).mp ht
    ⟨ht', fun u hu hc => eq_of_id_eq hi.ids hu ht' (honly u hc)⟩
  refine keeps_change (.none held d) (fun d' hd hi u hu hc => ?_) fun held' f' d' hd hi he => ?_
  · rwa [(hone d' hd hi).2 u hu hc]
  · obtain ⟨ht', hu⟩ := hone d' hd hi
    have hm : t ∈ transfers.matching cond d' := List.mem_filter.mpr ⟨ht', hcond⟩
    have hid : t.id ∈ transfers.ids cond d' := List.mem_map_of_mem hm
    generalize hrows : transfers.matching cond d' = rows at hm
    cases rows with
    | nil => cases hm
    | cons u rows =>
      have hmu : u ∈ transfers.matching cond d' := hrows ▸ List.mem_cons_self
      obtain ⟨hmem, hc⟩ := List.mem_filter.mp hmu
      obtain rfl := hu u hmem hc
      exact h _ held' f' d' ht' he hid

/-- A version in a status that follows. -/
lemma later_of_mem {t t' : Transfer} (hid : t'.id = t.id)
    (huser : t'.requestedByUserId = t.requestedByUserId)
    (hkey : t'.idempotencyKey = t.idempotencyKey) (hs : t'.status ∈ next t.status)
    (hstored : t.status = .ready → t'.objectKey = t.objectKey ∧ t'.sizeBytes = t.sizeBytes ∧
      t'.sha256 = t.sha256) : Later t t' := by
  refine ⟨hid, huser, hkey, .single hs, fun hf => ?_, hstored⟩
  rw [hf] at hs
  cases hs

/-- The update of the locked row to a status where the transfer ends. -/
lemma keeps_end {t : Transfer} {id' : ℕ} {cond : Transfer → Bool} {set : Transfer → Transfer}
    {p : List Transfer → Storage.Program Response} (ht : t ∈ d.transfers)
    (hl : Lock.transfer t.id ∈ held) (hid : t.id = id') (hcond : cond t)
    (honly : ∀ u, cond u → u.id = id') (hsame : (set t).id = t.id ∧
      (set t).requestedByUserId = t.requestedByUserId ∧
      (set t).idempotencyKey = t.idempotencyKey) (hs : (set t).status ∈ next t.status)
    (hstored : t.status = .ready → (set t).objectKey = t.objectKey ∧
      (set t).sizeBytes = t.sizeBytes ∧ (set t).sha256 = t.sha256)
    (hfinal : next (set t).status = [])
    (hsettled : ∀ d, Settled q.2 d ↔ ∃ u ∈ d.transfers, u.id = id' ∧ next u.status = [])
    (hp : ∀ rows, ∃ x r, p (set t :: rows) = Transfers.deleteObject x (.answer (.ok r))) :
    Keeps q (transfers.update cond set p) held id d := by
  have hopen : next t.status ≠ [] := fun hf => by
    rw [hf] at hs
    cases hs
  refine keeps_leave ht hl hcond (fun u hu => (honly u hu).trans hid.symm)
    ⟨later_of_mem hsame.1 hsame.2.1 hsame.2.2 hs hstored, fun hr => ?_⟩
    fun rows held' f' d₁ ht₁ he hm => ?_
  · rw [hr] at hfinal
    cases hfinal
  · obtain ⟨x, r, hx⟩ := hp rows
    rw [hx]
    refine keeps_deleteObject he fun f'' d₂ h₂ he' => ?_
    have ht₂ := (h₂.locked t (he.enabled t hm).1).mp ht₁
    refine keeps_changed he' ht₂ hm (fun d' hi hm' hset => ?_) fun d' hm' => ?_
    · obtain ⟨u, hu, huid, hus⟩ := (hsettled d').mp hset
      rw [eq_of_id_eq hi.ids hu hm' (huid.trans hid.symm)] at hus
      exact hopen hus
    · exact (hsettled d').mpr ⟨set t, hm', hsame.1.trans hid, hfinal⟩

end Statements

/-! ### The requests -/

lemma keeps_create (env : Environment) (b : Backend) (q : Create) (d : Db) :
    Keeps (b, .create q) (Transfers.create env b q) [] id d := by
  refine keeps_select fun d₁ _ _ => ?_
  split
  · exact True.intro
  refine keeps_connection fun held d₂ _ _ => ⟨True.intro, True.intro, ?_⟩
  split
  · exact True.intro
  refine keeps_clock fun d₃ _ _ => keeps_insert (fun d₄ _ _ hno => ?_) fun d₄ _ _ _ => ?_
  · generalize hrow : Transfers.newTransfer q _ _ = row
    have henabled : (RowEffect.insert row).Enabled spec Fine
        (transfers.locks row.id ++ [.transferKey q.userId q.key] ++ held) d₄.transfers := by
      subst hrow
      refine ⟨by simp [transfers, spec], by simp [transfers, spec, Transfers.newTransfer],
        fun t ht => ?_, fun hr => by cases hr⟩
      have hfresh := hno t ht
      simp only [Bool.or_eq_false_iff, decide_eq_false_iff_not] at hfresh
      refine ⟨hfresh.1, fun l hl hnew => ?_⟩
      simp only [spec, Transfers.newTransfer, List.mem_pair] at hl hnew
      rcases hl with rfl | rfl
      · simp only [Lock.transfer.injEq, reduceCtorEq, or_false] at hnew
        exact hfresh.1 hnew
      · simp only [reduceCtorEq, Lock.transferKey.injEq, false_or] at hnew
        simp [Transfers.hasKey, hnew] at hfresh
    refine keeps_answer (e := .insert row) ⟨fun _ => rfl, henabled⟩ fun d₅ hd _ => ⟨?_, fun _ => ?_⟩
    · rintro ⟨t, ht, hkey⟩
      have hfresh := ((henabled.rely hd).2.2.1 t ht).2 (.transferKey q.userId q.key)
      simp only [Transfers.hasKey, Bool.and_eq_true, decide_eq_true_eq] at hkey
      refine absurd ?_ (hfresh ?_)
      · simp [spec, ← hrow, Transfers.newTransfer]
      · simp [spec, hkey]
    · refine ⟨row, List.mem_append_right _ (List.mem_singleton_self row), ?_⟩
      simp [Transfers.hasKey, ← hrow, Transfers.newTransfer]
  · refine keeps_select fun d₅ _ _ => ?_
    split
    · exact True.intro
    · rename_i existing he
      have hm := List.mem_of_find?_eq_some he
      have hkey := List.find?_some he
      split
      · exact True.intro
      · exact keeps_current hm hkey ⟨existing, hm, hkey⟩

lemma keeps_uploadTarget (env : Environment) (b : Backend) (q : UploadTarget) (d : Db) :
    Keeps (b, .uploadTarget q) (Transfers.uploadTarget env q) [] id d := by
  rw [Transfers.uploadTarget]
  split
  · exact True.intro
  refine keeps_owned fun t d₁ _ => keeps_clock fun d₂ _ _ => ?_
  split
  · exact True.intro
  refine keeps_clock fun d₃ _ _ => keeps_clock fun d₄ _ _ =>
    keeps_change (.none _ _) (fun d₅ _ _ t _ hcond => ?_) fun held f d₅ _ _ he => ?_
  · simp only [Bool.and_eq_true, decide_eq_true_eq] at hcond
    refine ⟨later_of_mem rfl rfl rfl ?_ fun hr => ?_, fun hr => by cases hr⟩
    · rw [hcond.1.2]
      exact List.mem_cons_self
    · rw [hcond.1.2] at hr
      cases hr
  · generalize hrows : (transfers.matching _ d₅).map _ = rows
    cases rows with
    | nil => exact True.intro
    | cons u rows =>
      obtain ⟨t, ht, -⟩ := List.mem_map.mp (hrows ▸ List.mem_cons_self)
      obtain ⟨ht', hcond⟩ := List.mem_filter.mp ht
      simp only [Bool.and_eq_true, decide_eq_true_eq] at hcond
      refine keeps_changed he ht' (List.mem_map_of_mem ht) (fun d' hi hm => ?_) fun d' hm => ?_
      · rintro ⟨t', hm', hid, hs⟩
        rw [eq_of_id_eq hi.ids hm' hm (hid.trans hcond.1.1.symm)] at hs
        exact hs hcond.1.2
      · exact ⟨_, hm, hcond.1.1, by simp [Transfers.upload]⟩

lemma keeps_setReady (b : Backend) (q : Complete) {t : Transfer} {held : List Lock} {d : Db}
    (ht : t ∈ d.transfers) (hl : Lock.transfer t.id ∈ held) (hid : t.id = q.transferId)
    (hs : t.status = .uploading) (hkey : t.objectKey ≠ none)
    (hsize : t.sizeBytes = some q.sizeBytes) :
    Keeps (b, .complete q) (Transfers.setReady q) held id d := by
  refine keeps_lock fun d₁ h₁ _ => ?_
  have ht₁ := (RowRely.locked h₁ t hl).mp ht
  split
  · exact True.intro
  refine keeps_leave ht₁ (List.mem_append_right _ hl) (by simp [hid, hs])
    (fun u hu => ?_) ⟨later_of_mem rfl rfl rfl ?_ fun hr => ?_, fun _ => ?_⟩
    fun rows held' f' d₂ ht₂ he hm => ?_
  · simp only [Bool.and_eq_true, decide_eq_true_eq] at hu
    exact hu.1.trans hid.symm
  · rw [hs]
    exact List.mem_cons_self
  · rw [hs] at hr
    cases hr
  · exact ⟨Option.isSome_iff_ne_none.mpr hkey, by simp [Transfers.ready, hsize], rfl⟩
  · refine keeps_changed he ht₂ hm (fun d' hi hm' => ?_) fun d' hm' => ?_
    · rintro ⟨u, hu, huid, hus⟩
      rw [eq_of_id_eq hi.ids hu hm' (huid.trans hid.symm), hs] at hus
      exact hus (by decide)
    · exact ⟨_, hm', hid, by simp [Transfers.ready]⟩

lemma keeps_complete (b : Backend) (q : Complete) (d : Db) :
    Keeps (b, .complete q) (Transfers.complete b q) [] id d := by
  refine keeps_select fun d₁ _ _ => ?_
  split
  · rename_i existing he
    split
    · rename_i hsame
      obtain ⟨hid, -, hsame⟩ := hsame
      simp only [Transfers.isCompletion, Bool.and_eq_true, decide_eq_true_eq] at hsame
      have hm := List.mem_of_find?_eq_some he
      exact keeps_current hm hid ⟨existing, hm, hid, by simp [hsame.1.1]⟩
    · exact True.intro
  refine keeps_owned fun t d₂ _ => ?_
  split
  · exact True.intro
  split
  · exact True.intro
  refine keeps_lockOwned fun current held d₃ _ _ hm hid hl => ?_
  split
  · rename_i hsame
    simp only [Transfers.isCompletion, Bool.and_eq_true, decide_eq_true_eq] at hsame
    exact keeps_current hm hid ⟨current, hm, hid, by simp [hsame.2.1.1]⟩
  split
  · exact True.intro
  · rename_i hgood
    simp only [not_or, not_not] at hgood
    exact keeps_setReady b q hm hl hid hgood.1 hgood.2.1 hgood.2.2.1

lemma keeps_fail (b : Backend) (q : Fail) (d : Db) :
    Keeps (b, .fail q) (Transfers.fail b q) [] id d := by
  refine keeps_lockOwned fun t held d₁ _ _ ht hid hl => ?_
  split
  · rename_i hf
    split
    · exact keeps_current ht hid ⟨t, ht, hid, by rw [hf]; rfl⟩
    · exact True.intro
  split
  · exact True.intro
  rename_i hopen
  rw [not_not, List.mem_pair] at hopen
  refine keeps_clock fun d₂ h₂ _ => keeps_end ((RowRely.locked h₂ t hl).mp ht) hl hid (by simp [hid])
    (fun u hu => ?_) ⟨rfl, rfl, rfl⟩ ?_ (fun _ => ⟨rfl, rfl, rfl⟩) rfl (fun _ => Iff.rfl)
    fun rows => ⟨_, _, rfl⟩
  · simp only [Bool.and_eq_true, decide_eq_true_eq] at hu
    exact hu.1
  · rcases hopen with hs | hs <;> rw [hs] <;> simp [Transfers.failed, next]

lemma keeps_ack (b : Backend) (q : Ack) (d : Db) :
    Keeps (b, .ack q) (Transfers.ack b q) [] id d := by
  refine keeps_lockOwned fun t held d₁ _ _ ht hid hl => ?_
  split
  · rename_i hc
    exact keeps_current ht hid ⟨t, ht, hid, by rw [hc]; rfl⟩
  split
  · exact True.intro
  rename_i hready
  simp only [not_or, not_not] at hready
  refine keeps_clock fun d₂ h₂ _ => keeps_end ((RowRely.locked h₂ t hl).mp ht) hl hid
    (by simp [hid, hready.1]) (fun u hu => ?_) ⟨rfl, rfl, rfl⟩ ?_ (fun _ => ⟨rfl, rfl, rfl⟩) rfl (fun _ => Iff.rfl)
    fun rows => ⟨_, _, rfl⟩
  · simp only [Bool.and_eq_true, decide_eq_true_eq] at hu
    exact hu.1
  · rw [hready.1]
    exact List.mem_cons_self

/-- The transfer is not `FAILED` here, or the condition would not hold. -/
lemma keeps_cancelLocked (b : Backend) (q : Cancel) {t : Transfer} {held : List Lock} {d : Db}
    (ht : t ∈ d.transfers) (hid : t.id = q.transferId) (hl : Lock.transfer t.id ∈ held) :
    Keeps (b, .cancel q) (Transfers.cancelLocked b q t) held id d := by
  generalize hrest : Transfers.cancelLocked b q t = p
  have hp := hrest
  rw [Transfers.cancelLocked] at hp
  split at hp
  · rename_i hc
    rw [← hp]
    exact keeps_current ht hid ⟨t, ht, hid, by rw [hc]; rfl⟩
  split at hp
  · rw [← hp]
    exact True.intro
  rename_i hc hclosed
  subst hp
  intro d₁ h₁ _ hok
  have hfailed : t.status ≠ .failed := hok b q t rfl hrest.symm
  have hopen : TransferStatus.cancelled ∈ next t.status := by
    cases hs : t.status with
    | requested | uploading | ready => decide
    | completed | expired => exact absurd (by rw [hs]; decide) hclosed
    | failed => exact absurd hs hfailed
    | cancelled => exact absurd hs hc
  refine keeps_end ((RowRely.locked h₁ t hl).mp ht) hl hid (by simp [hid]) (fun u hu => ?_)
    ⟨rfl, rfl, rfl⟩ hopen (fun _ => ⟨rfl, rfl, rfl⟩) rfl (fun _ => Iff.rfl)
    fun rows => ⟨_, _, rfl⟩
  simp only [Bool.and_eq_true, decide_eq_true_eq] at hu
  exact hu.1

lemma keeps_cancel (b : Backend) (q : Cancel) (d : Db) :
    Keeps (b, .cancel q) (Transfers.cancel b q) [] id d :=
  keeps_lockOwned fun _ _ _ _ _ ht hid hl => keeps_cancelLocked b q ht hid hl

/-- A request that `SameArguments` does not speak of. -/
structure Unrepeated (q : Served) : Prop where
  settled : ∀ d, ¬ Settled q.2 d
  same : ¬ SameArguments q.2 q.2

section Unrepeated

variable {q : Served} {held : List Lock} {f : Db → Db} {d : Db} {e : RowEffect Transfer}

lemma Unrepeated.keeps {r : Response} (hq : Unrepeated q) (h : Effects held f d e) :
    Keeps q (.answer (.ok r)) held f d :=
  keeps_answer h fun d' _ _ => ⟨fun hs => absurd hs (hq.settled d'), fun hs => absurd hs hq.same⟩

/-- From a live status to one where the transfer ends. -/
lemma later_of_live {t t' : Transfer} (hlive : t.status ∈ Transfers.live)
    (hid : t'.id = t.id) (huser : t'.requestedByUserId = t.requestedByUserId)
    (hkey : t'.idempotencyKey = t.idempotencyKey)
    (hs : t'.status ∈ [TransferStatus.cancelled, .expired])
    (hstored : t'.objectKey = t.objectKey ∧ t'.sizeBytes = t.sizeBytes ∧ t'.sha256 = t.sha256) :
    Later t t' ∧ Fine t' := by
  refine ⟨later_of_mem hid huser hkey ?_ fun _ => hstored, fun hr => ?_⟩
  · simp only [Transfers.live, List.mem_cons, List.not_mem_nil, or_false] at hlive hs
    rcases hlive with h | h | h <;> rcases hs with h' | h' <;> rw [h, h'] <;> decide
  · rw [hr] at hs
    simp at hs

lemma keeps_expireTransfer (hq : Unrepeated q) (transferId : ℕ) :
    Keeps q (Transfers.expireTransfer transferId) held id d := by
  refine keeps_clock fun d₁ _ _ => keeps_change (.none held d₁) (fun d₂ _ _ t _ hcond => ?_)
    fun held' f' d₂ _ _ he => ?_
  · simp only [Bool.and_eq_true, decide_eq_true_eq] at hcond
    exact later_of_live hcond.2 rfl rfl rfl (by simp [Transfers.expired]) ⟨rfl, rfl, rfl⟩
  · split
    · exact hq.keeps he
    · exact keeps_deleteObject he fun f'' d₃ _ he' => hq.keeps he'

lemma keeps_expire (b : Backend) (transferId : ℕ) (d : Db) :
    Keeps (b, .expire transferId) (Transfers.expire b transferId) [] id d := by
  have hq : Unrepeated (b, .expire transferId) := ⟨fun _ => id, id⟩
  refine keeps_clock fun d₁ _ _ => keeps_select fun d₂ _ _ => ?_
  split
  · exact hq.keeps (.none [] d₂)
  · exact keeps_connection fun held d₃ _ _ => ⟨keeps_expireTransfer hq transferId,
      keeps_expireTransfer hq transferId, keeps_expireTransfer hq transferId⟩

lemma keeps_cancelResources {s : Connections.Scope} {p : Storage.Program Response}
    (h : Effects held f d .none) (hp : ∀ held' f' d' e, Effects held' f' d' e →
      Keeps q p held' f' d') : Keeps q (Connections.cancelResources s p) held f d := by
  have hbrowses : ∀ held' f' d' e, Effects held' f' d' e →
      Keeps q (Connections.cancelBrowses s p) held' f' d' := fun held' f' d' e he =>
    keeps_aside (fun _ _ => rfl) he fun _ _ _ _ he =>
      keeps_aside (fun _ _ => rfl) he fun _ _ _ _ he => hp _ _ _ _ he
  have htransfers : ∀ held' f' d', Effects held' f' d' .none →
      Keeps q (Connections.cancelTransfers s (Connections.cancelBrowses s p)) held' f' d' := by
    intro held' f' d' he
    refine keeps_clock fun d₁ h₁ _ => keeps_change (he.rely h₁ (List.Subset.refl _))
      (fun d₂ _ _ t _ hcond => ?_) fun _ _ d₂ _ _ he =>
        keeps_modify_aside (fun _ => rfl) he fun _ _ he => hbrowses _ _ _ _ he
    simp only [Bool.and_eq_true, decide_eq_true_eq] at hcond
    exact later_of_live hcond.2 rfl rfl rfl (by simp) ⟨rfl, rfl, rfl⟩
  have hreservations : ∀ held' f' d', Effects held' f' d' .none →
      Keeps q (Connections.cancelReservations s (Connections.cancelTransfers s
        (Connections.cancelBrowses s p))) held' f' d' := fun held' f' d' he =>
    keeps_aside (fun _ _ => rfl) he fun _ _ _ _ he =>
      keeps_modify_aside (fun _ => rfl) he fun _ _ he => htransfers _ _ _ he
  rw [Connections.cancelResources, Connections.cancelFiles]
  split
  · exact hreservations held f d h
  · refine keeps_aside (fun _ _ => rfl) h fun _ _ _ d₁ he => keeps_clock fun d₂ h₂ _ =>
      keeps_modify_aside (fun _ => rfl) (he.rely h₂ (List.Subset.refl _))
        fun _ _ he => hreservations _ _ _ he

lemma keeps_withReceipt {actor : Connections.Actor} {key : String} {operation : Operation}
    {aggregateId : ℕ} {mutate : Storage.Program Response → Storage.Program Response}
    (hq : Unrepeated q) (h : ∀ p held' d', (∀ held' f' d' e, Effects held' f' d' e →
      Keeps q p held' f' d') → Keeps q (mutate p) held' id d') :
    Keeps q (Connections.withReceipt actor key operation aggregateId .nothing mutate) held id d := by
  refine keeps_lock fun d₁ _ _ => keeps_select fun d₂ _ _ => ?_
  split
  · split
    · exact True.intro
    · exact hq.keeps (.none _ d₂)
  · exact h _ _ d₂ fun _ _ _ _ he =>
      keeps_modify_aside (fun _ => rfl) he fun _ _ he => hq.keeps he

lemma keeps_removeRoom (b : Backend) (q : RemoveRoom) (d : Db) :
    Keeps (b, .removeRoom q) (Connections.removeRoom b q .nothing) [] id d := by
  refine keeps_withReceipt ⟨fun _ => id, id⟩ fun p held d₁ hp => keeps_select fun d₂ _ _ => ?_
  split
  · exact True.intro
  split
  · exact True.intro
  refine keeps_selectFor fun d₃ _ _ => ?_
  split
  · exact True.intro
  refine keeps_selectFor fun d₄ _ _ => ?_
  split
  · exact True.intro
  refine keeps_cancelResources (.none _ d₄) fun _ _ _ _ he =>
    keeps_aside (fun _ _ => rfl) he fun rows _ _ _ he => ?_
  split
  · exact True.intro
  · exact hp _ _ _ _ he

lemma keeps_revokeDevice (b : Backend) (q : RevokeDevice) (d : Db) :
    Keeps (b, .revokeDevice q) (Connections.revokeDevice b q .nothing) [] id d := by
  refine keeps_withReceipt ⟨fun _ => id, id⟩ fun p held d₁ hp => keeps_selectFor fun d₂ _ _ => ?_
  split
  · exact True.intro
  refine keeps_selectAllFor fun d₃ _ _ => keeps_cancelResources (.none _ d₃) fun _ _ _ _ he =>
    keeps_aside (fun _ _ => rfl) he fun rows _ _ _ he => ?_
  split
  · exact True.intro
  rw [Connections.removeRooms]
  split
  · exact hp _ _ _ _ he
  · exact keeps_aside (fun _ _ => rfl) he fun _ _ _ _ he => hp _ _ _ _ he

end Unrepeated

/-! ### All requests -/

theorem lifecycle_kept (env : Environment) : Kept (body env) protocol NoLateCancel post := by
  rintro ⟨b, q⟩ d -
  cases q with
  | create q => exact keeps_create env b q d
  | uploadTarget q => exact keeps_uploadTarget env b q d
  | complete q => exact keeps_complete b q d
  | fail q => exact keeps_fail b q d
  | ack q => exact keeps_ack b q d
  | cancel q => exact keeps_cancel b q d
  | expire id => exact keeps_expire b id d
  | removeRoom q => exact keeps_removeRoom b q d
  | revokeDevice q => exact keeps_revokeDevice b q d
  | tick now =>
    have hq : Unrepeated (b, .tick now) := ⟨fun _ => id, id⟩
    exact keeps_modify_aside (fun _ => rfl) (.none [] d) fun _ _ he => hq.keeps he

/-- The call of the request commits with the answer. -/
def Commit (env : Environment) (s s' : State Served Db Lock Code Response) (q : Request)
    (r : Response) : Prop :=
  ∃ i c, s.calls i = some c ∧ c.request.2 = q ∧ Step (body env) s (.commit i r) s'

/-- A call that is about to commit has no transfer to cancel before it. -/
lemma asked_commit {s : State Served Db Lock Code Response} {i : ℕ}
    {c : Call Served Db Lock Code Response} {r : Response} (hc : s.calls i = some c)
    (hr : c.rest = .answer (.ok r)) : Asked NoLateCancel s (.commit i r) := by
  rintro j c' (he | ⟨r', he⟩) hc' b q t - hrest hfailed
  · cases he
  · cases he
    rw [hc] at hc'
    cases hc'
    rw [hr, Transfers.cancelLocked, if_neg (by rw [hfailed]; decide),
      if_neg (by rw [hfailed]; decide)] at hrest
    cases hrest

lemma orderly_of_nil {d : Db} (h : d.transfers = []) : Orderly d := by
  constructor
  · rw [h]
    exact List.nodup_nil
  · rw [h]
    exact fun t ht => absurd ht List.not_mem_nil

/-- One room on one device. -/
def sampleTables : Db where
  now := 0
  devices := [⟨9, 1, true⟩]
  rooms := [⟨3, 1, 9, true⟩]
  transfers := []
  browses := []
  policies := []
  batches := []
  reservations := []
  files := []
  objectDeletionJobs := []
  cacheDeletionJobs := []
  cacheReservationDeletionJobs := []
  receipts := []

def sampleEnvironment : Environment := ⟨3600, 1000⟩

def sampleBackend : Backend := ⟨1, ⟨0, Nat.one_pos⟩⟩

/-- The tables after requests that are served one after the other. -/
def serve (d : Db) (l : List Request) : Db :=
  l.foldl (fun d q => (body sampleEnvironment (sampleBackend, q)).alone id d) d

lemma askedRuns_serve {ok : Cond Served Db Lock Code Response} (d : Db) (l : List Request)
    (h : ∀ q ∈ l, ∀ d c, c.request = (sampleBackend, q) → ok d c) :
    AskedRuns (body sampleEnvironment) ok (.quiet d) (.quiet (serve d l)) := by
  induction l generalizing d with
  | nil => exact .refl
  | cons q l ih =>
    exact (askedRuns_alone (sampleBackend, q) d (h q List.mem_cons_self d)).trans
      (ih _ fun q' hq' => h q' (List.mem_cons_of_mem q hq'))

/-- A transfer that fails. -/
def sampleRequests : List Request :=
  [.create ⟨1, 3, "key", "a.txt", 5, true⟩, .fail ⟨1, 9, 5, .sourceNotFound⟩]

end MouseKeeper.Storage.Lifecycle
