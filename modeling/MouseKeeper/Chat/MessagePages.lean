import MouseKeeper.Cursor
import Mathlib.Data.List.Sort

/-!
The messages of a session, page by page, and how many of them are unread.

The database keeps times in microseconds and the server reads them in milliseconds. Messages
are in the order of their times and, within one, of their ids; but a cursor and a message that
has been read are compared by their times alone, as the server has read them.
-/

namespace MouseKeeper.Chat.MessagePages

open MouseKeeper.Cursor

/-- Who a message is from. -/
inductive SenderType
  | user | assistant
  deriving DecidableEq, Repr

structure ChatMessage where
  id : ℕ
  sessionId : ℕ
  senderType : SenderType
  content : String
  /-- In microseconds. -/
  createdAt : ℕ
  deriving DecidableEq, Repr

structure ChatReadState where
  userId : ℕ
  sessionId : ℕ
  lastReadMessageId : Option ℕ
  readAt : ℕ
  deriving DecidableEq, Repr

structure ChatSession where
  id : ℕ
  userId : ℕ
  deriving DecidableEq, Repr

structure Db where
  sessions : List ChatSession
  messages : List ChatMessage
  readStates : List ChatReadState
  /-- The primary key of the messages. -/
  nodup : (messages.map ChatMessage.id).Nodup

/-- A time that has been read into a `Date` and is compared with times of the database. -/
def readDate (time : ℕ) : ℕ := time / 1000 * 1000

/-- The order of the messages. -/
def Before (a b : ChatMessage) : Prop :=
  a.createdAt < b.createdAt ∨ a.createdAt = b.createdAt ∧ a.id < b.id

instance : DecidableRel Before := fun a b => by unfold Before; infer_instance

def notAfter (a b : ChatMessage) : Bool := ¬ Before b a

/-- `orderBy(asc(createdAt), asc(id))`. -/
def orderBy (rows : List ChatMessage) : List ChatMessage := rows.mergeSort notAfter

def requireOwnedSession (db : Db) (userId sessionId : ℕ) : Except String ChatSession :=
  match db.sessions.find? fun s => s.id = sessionId ∧ s.userId = userId with
  | some session => .ok session
  | none => .error "NOT_FOUND"

def sessionMessages (db : Db) (sessionId : ℕ) : List ChatMessage :=
  db.messages.filter fun m => m.sessionId = sessionId

def requireSessionMessage (db : Db) (sessionId messageId : ℕ) : Except String ChatMessage :=
  match (sessionMessages db sessionId).find? fun m => m.id = messageId with
  | some message => .ok message
  | none => .error "NOT_FOUND"

/-- `gt(createdAt, afterCreatedAt)`, where there is such a time. -/
def createdAfter (afterCreatedAt : Option ℕ) (m : ChatMessage) : Bool :=
  afterCreatedAt.all (· < m.createdAt)

def listMessages (db : Db) (userId sessionId : ℕ) (cursor : Option ℕ) (limit : ℕ) :
    Except String (List ChatMessage) := do
  let session ← requireOwnedSession db userId sessionId
  let afterCreatedAt ← match cursor with
    | none => pure none
    | some id => do
      let cursorMessage ← requireSessionMessage db session.id id
      pure (some (readDate cursorMessage.createdAt))
  return (orderBy ((sessionMessages db session.id).filter (createdAfter afterCreatedAt))).take limit

/-! ### Unread messages -/

def unreadCountAfter (db : Db) (sessionId : ℕ) (afterCreatedAt : Option ℕ) : ℕ :=
  (sessionMessages db sessionId).countP fun m =>
    m.senderType ≠ .user && createdAfter afterCreatedAt m

def latestSessionMessage (db : Db) (sessionId : ℕ) : Option ChatMessage :=
  (orderBy (sessionMessages db sessionId)).getLast?

/-- The count that a list of sessions shows. -/
def sessionCounters (db : Db) (session : ChatSession) : Except String ℕ :=
  match db.readStates.find? fun r => r.userId = session.userId ∧ r.sessionId = session.id with
  | some { lastReadMessageId := some messageId, .. } => do
    let readMessage ← requireSessionMessage db session.id messageId
    return unreadCountAfter db session.id (some (readDate readMessage.createdAt))
  | _ => .ok (unreadCountAfter db session.id none)

/-- `onConflictDoUpdate` on the user and the session. -/
def upsertReadState (states : List ChatReadState) (state : ChatReadState) : List ChatReadState :=
  if states.any fun r => r.userId = state.userId ∧ r.sessionId = state.sessionId then
    states.map fun r => if r.userId = state.userId ∧ r.sessionId = state.sessionId then state else r
  else states ++ [state]

/-- The count that the call returns, and what it has written. -/
def markSessionRead (db : Db) (userId sessionId : ℕ) (lastReadMessageId : Option ℕ) (now : ℕ) :
    Except String (ℕ × Db) := do
  let session ← requireOwnedSession db userId sessionId
  let readMessage ← match lastReadMessageId with
    | some id => (requireSessionMessage db session.id id).map some
    | none => pure (latestSessionMessage db session.id)
  let state : ChatReadState := ⟨userId, session.id, readMessage.map ChatMessage.id, now⟩
  return (0, { db with readStates := upsertReadState db.readStates state })

/-! ### What is wanted -/

variable (db : Db) (userId : ℕ) (session : ChatSession) (limit : ℕ)

/-- What a client receives that asks for page after page until one is not full. -/
inductive Received : Option ℕ → List ChatMessage → Prop
  | last {cursor page} (h : listMessages db session.userId session.id cursor limit = .ok page)
      (hlast : page.length < limit) : Received cursor page
  | more {cursor page m out} (h : listMessages db session.userId session.id cursor limit = .ok page)
      (hfull : page.length = limit) (hm : page.getLast? = some m) (rest : Received (some m.id) out) :
      Received cursor (page ++ out)

/-- The pages bring every message of the session once, in order. -/
def PagesComplete : Prop :=
  ∀ out, Received db session limit none out ↔ out = orderBy (sessionMessages db session.id)

/-- The assistant's messages that come after a message. -/
def assistantsAfter (m : ChatMessage) : ℕ :=
  (sessionMessages db session.id).countP fun x => x.senderType = .assistant ∧ Before m x

/-- A message that ends a full page was created at a whole millisecond, before the message that
follows it. -/
def PageEndsSharp : Prop :=
  ∀ pre m rest, orderBy (sessionMessages db session.id) = pre ++ m :: rest →
    limit ∣ pre.length + 1 → m.createdAt % 1000 = 0 ∧ ∀ x ∈ rest, m.createdAt < x.createdAt

/-- No message of the assistant is on the wrong side of the time that stands for a message:
none shares the time of a message that was created at a whole millisecond and comes after it,
and otherwise none was created in the same millisecond and does not come after it. -/
def ReadSharp (m : ChatMessage) : Prop :=
  ∀ x ∈ sessionMessages db session.id, x.senderType = .assistant →
    if m.createdAt % 1000 = 0 then Before m x → m.createdAt < x.createdAt
    else ¬ Before m x → x.createdAt ≤ readDate m.createdAt

/-! ### The order -/

variable {db userId session limit} {rows : List ChatMessage} {a b c m : ChatMessage}

lemma readDate_le (t : ℕ) : readDate t ≤ t := Nat.div_mul_le_self t 1000

lemma readDate_eq {t : ℕ} : readDate t = t ↔ t % 1000 = 0 := by
  unfold readDate
  omega

lemma Before.irrefl (a : ChatMessage) : ¬ Before a a := by
  unfold Before
  omega

lemma Before.asymm (h : Before a b) : ¬ Before b a := by
  unfold Before at *
  omega

lemma Before.le (h : Before a b) : a.createdAt ≤ b.createdAt := by
  unfold Before at h
  omega

lemma before_of_not (hid : a.id ≠ b.id) (h : ¬ Before b a) : Before a b := by
  unfold Before at *
  omega

lemma notAfter_iff : notAfter a b = true ↔ ¬ Before b a := by
  simp [notAfter]

lemma orderBy_perm (rows : List ChatMessage) : (orderBy rows).Perm rows := List.mergeSort_perm ..

lemma orderBy_pairwise (hn : (rows.map ChatMessage.id).Nodup) : (orderBy rows).Pairwise Before := by
  have hle : (orderBy rows).Pairwise fun a b => notAfter a b = true := by
    refine List.pairwise_mergeSort (fun a b c hab hbc => ?_) (fun a b => ?_) rows
    · simp only [notAfter_iff, Before] at *
      omega
    · simp only [Bool.or_eq_true, notAfter_iff, Before]
      omega
  have hids : (orderBy rows).Pairwise fun a b => a.id ≠ b.id := by
    have := ((orderBy_perm rows).map ChatMessage.id).nodup_iff.mpr hn
    exact List.pairwise_map.mp this
  exact (hle.and hids).imp fun ⟨h, hid⟩ => before_of_not hid (notAfter_iff.mp h)

lemma orderBy_filter (hn : (rows.map ChatMessage.id).Nodup) (p : ChatMessage → Bool) :
    orderBy (rows.filter p) = (orderBy rows).filter p := by
  have hn' : ((rows.filter p).map ChatMessage.id).Nodup := hn.sublist (List.filter_sublist.map _)
  have hperm : (orderBy (rows.filter p)).Perm ((orderBy rows).filter p) :=
    (orderBy_perm _).trans ((orderBy_perm rows).symm.filter p)
  refine List.Perm.eq_of_pairwise (fun a b _ _ hab hba => absurd hba hab.asymm)
    (orderBy_pairwise hn') ((orderBy_pairwise hn).filter p) hperm

lemma session_nodup (db : Db) (sessionId : ℕ) :
    ((sessionMessages db sessionId).map ChatMessage.id).Nodup :=
  db.nodup.sublist (List.filter_sublist.map _)

lemma requireSessionMessage_of_mem {sessionId : ℕ} (hm : m ∈ sessionMessages db sessionId) :
    requireSessionMessage db sessionId m.id = .ok m := by
  unfold requireSessionMessage
  cases hf : (sessionMessages db sessionId).find? fun x => x.id = m.id with
  | none => simpa using List.find?_eq_none.mp hf m hm
  | some x =>
    have hid : x.id = m.id := by simpa using List.find?_some hf
    have hx := List.mem_of_find?_eq_some hf
    rw [List.inj_on_of_nodup_map (session_nodup db sessionId) hx hm hid]

/-! ### Pages -/

/-- A message comes after a cursor if it was created later than the server has read. -/
def comesAfter (c x : ChatMessage) : Bool := createdAfter (some (readDate c.createdAt)) x

@[simp] lemma comesAfter_iff : comesAfter c m = true ↔ readDate c.createdAt < m.createdAt := by
  simp [comesAfter, createdAfter]

/-- The page after a cursor, and the first one. -/
lemma listMessages_eq (hs : requireOwnedSession db session.userId session.id = .ok session)
    {cursor : Option ChatMessage} (hc : ∀ c ∈ cursor, c ∈ sessionMessages db session.id) :
    listMessages db session.userId session.id (cursor.map ChatMessage.id) limit =
      .ok ((shown comesAfter (orderBy (sessionMessages db session.id)) cursor).take limit) := by
  have hn := session_nodup db session.id
  unfold listMessages
  rw [hs]
  cases cursor with
  | none =>
    have hall : (sessionMessages db session.id).filter (createdAfter none) =
        sessionMessages db session.id := List.filter_eq_self.mpr fun _ _ => rfl
    simp only [Option.map_none, bind, Except.bind, pure, Except.pure, shown, hall]
  | some c =>
    have hmem := hc c rfl
    simp only [Option.map_some, bind, Except.bind, requireSessionMessage_of_mem hmem, pure,
      Except.pure, shown, orderBy_filter hn]
    rfl

lemma mem_of_last {cursor : Option ChatMessage}
    (hlast : ((shown comesAfter (orderBy (sessionMessages db session.id)) cursor).take limit).getLast?
      = some c) : c ∈ sessionMessages db session.id := by
  have hm : c ∈ shown comesAfter (orderBy (sessionMessages db session.id)) cursor :=
    List.mem_of_mem_take (List.mem_of_getLast? hlast)
  have hl : c ∈ orderBy (sessionMessages db session.id) := by
    cases cursor with
    | none => exact hm
    | some c' => exact List.mem_of_mem_filter hm
  exact (orderBy_perm _).mem_iff.mp hl

lemma received_of_follows (hs : requireOwnedSession db session.userId session.id = .ok session)
    {cursor : Option ChatMessage} {out : List ChatMessage}
    (hc : ∀ c ∈ cursor, c ∈ sessionMessages db session.id)
    (h : Follows comesAfter limit (orderBy (sessionMessages db session.id)) cursor out) :
    Received db session limit (cursor.map ChatMessage.id) out := by
  induction h with
  | @last cursor hlt =>
    refine .last ?_ hlt
    rw [listMessages_eq hs hc, List.take_of_length_le hlt.le]
  | @more cursor c out hle hlast rest ih =>
    refine .more (listMessages_eq hs hc) (by simp [hle]) hlast (ih fun x hx => ?_)
    obtain rfl := Option.some.inj hx
    exact mem_of_last hlast

lemma follows_of_received (hs : requireOwnedSession db session.userId session.id = .ok session)
    {id : Option ℕ} {out : List ChatMessage} (h : Received db session limit id out) :
    ∀ cursor : Option ChatMessage, cursor.map ChatMessage.id = id →
      (∀ c ∈ cursor, c ∈ sessionMessages db session.id) →
      Follows comesAfter limit (orderBy (sessionMessages db session.id)) cursor out := by
  induction h with
  | @last id page h hlast =>
    rintro cursor rfl hc
    obtain rfl := Except.ok.inj (h.symm.trans (listMessages_eq hs hc))
    have hlt : (shown comesAfter (orderBy (sessionMessages db session.id)) cursor).length < limit := by
      rw [List.length_take] at hlast
      omega
    rw [List.take_of_length_le hlt.le]
    exact .last hlt
  | @more id page m out h hfull hm rest ih =>
    rintro cursor rfl hc
    obtain rfl := Except.ok.inj (h.symm.trans (listMessages_eq hs hc))
    refine .more ?_ hm (ih (some m) rfl fun c hc' => ?_)
    · rw [List.length_take] at hfull
      omega
    · obtain rfl := Option.some.inj hc'
      exact mem_of_last hm

lemma received_iff (hs : requireOwnedSession db session.userId session.id = .ok session)
    (out : List ChatMessage) : Received db session limit none out ↔
      Follows comesAfter limit (orderBy (sessionMessages db session.id)) none out :=
  ⟨fun h => follows_of_received hs h none rfl fun _ hc => (Option.not_mem_none _ hc).elim,
    fun h => received_of_follows hs (fun _ hc => (Option.not_mem_none _ hc).elim) h⟩

/-- A message cuts the list exactly if the server has read its time as it is and no later
message shares it. -/
lemma cut_iff {pre rest : List ChatMessage} (h : (pre ++ m :: rest).Pairwise Before) :
    (pre ++ m :: rest).filter (comesAfter m) = rest ↔
      m.createdAt % 1000 = 0 ∧ ∀ x ∈ rest, m.createdAt < x.createdAt := by
  obtain ⟨-, hrest, hcross⟩ := List.pairwise_append.mp h
  obtain ⟨hm, hrest⟩ := List.pairwise_cons.mp hrest
  constructor
  · intro hf
    have hself : ¬ readDate m.createdAt < m.createdAt := by
      intro hlt
      have hmem : m ∈ (pre ++ m :: rest).filter (comesAfter m) :=
        List.mem_filter.mpr ⟨by simp, by simpa using hlt⟩
      exact Before.irrefl m (hm m (hf ▸ hmem))
    have heq : readDate m.createdAt = m.createdAt := by
      have := readDate_le m.createdAt
      omega
    refine ⟨readDate_eq.mp heq, fun x hx => ?_⟩
    have hx' : comesAfter m x = true := (List.mem_filter.mp (hf.symm ▸ hx)).2
    rwa [comesAfter_iff, heq] at hx'
  · rintro ⟨hwhole, hlater⟩
    have heq := readDate_eq.mpr hwhole
    have hpre : pre.filter (comesAfter m) = [] := List.filter_eq_nil_iff.mpr fun x hx => by
      have := (hcross x hx m List.mem_cons_self).le
      simp only [comesAfter_iff]
      omega
    have hself : ¬ comesAfter m m = true := by
      simp only [comesAfter_iff]
      omega
    have hall : rest.filter (comesAfter m) = rest := List.filter_eq_self.mpr fun x hx => by
      simpa [heq] using hlater x hx
    rw [List.filter_append, hpre, List.filter_cons_of_neg hself, hall, List.nil_append]

lemma pagesComplete_iff (hs : requireOwnedSession db session.userId session.id = .ok session)
    (hlimit : 0 < limit) : PagesComplete db session limit ↔ PageEndsSharp db session limit := by
  have hp : (orderBy (sessionMessages db session.id)).Pairwise Before :=
    orderBy_pairwise (session_nodup db session.id)
  have hnodup : (orderBy (sessionMessages db session.id)).Nodup := by
    refine hp.imp fun {a b} h heq => ?_
    subst heq
    exact Before.irrefl a h
  have hsuffix : ∀ c, (orderBy (sessionMessages db session.id)).filter (comesAfter c) <:+
      orderBy (sessionMessages db session.id) := fun c =>
    filter_suffix (fun a b hab ha => by
      have := hab.le
      simp only [comesAfter_iff] at ha ⊢
      omega) hp
  unfold PagesComplete PageEndsSharp
  simp only [received_iff hs]
  rw [follows_iff hlimit hnodup hsuffix]
  refine forall_congr' fun pre => forall_congr' fun c => forall_congr' fun rest => ?_
  refine forall_congr' fun hl => imp_congr_right fun _ => ?_
  rw [hl] at hp ⊢
  exact cut_iff hp

/-! ### Unread messages -/

lemma find_upsertReadState (states : List ChatReadState) (state : ChatReadState) :
    (upsertReadState states state).find? (fun r => r.userId = state.userId ∧
      r.sessionId = state.sessionId) = some state := by
  unfold upsertReadState
  split_ifs with h
  · induction states with
    | nil => simp at h
    | cons r rs ih =>
      by_cases hr : r.userId = state.userId ∧ r.sessionId = state.sessionId
      · simp [hr]
      · rw [List.map_cons, if_neg hr, List.find?_cons_of_neg (by simpa using hr)]
        exact ih (by simpa [hr] using h)
  · have hnone : states.find? (fun r => r.userId = state.userId ∧ r.sessionId = state.sessionId) =
        none := List.find?_eq_none.mpr fun r hr => by
      have := List.any_eq_false.mp (Bool.eq_false_iff.mpr h) r hr
      simpa using this
    rw [List.find?_append, hnone]
    simp

lemma sessionCounters_of_find {now : ℕ}
    (hf : db.readStates.find? (fun r => r.userId = session.userId ∧ r.sessionId = session.id) =
      some ⟨session.userId, session.id, some m.id, now⟩)
    (hreq : requireSessionMessage db session.id m.id = .ok m) :
    sessionCounters db session =
      .ok (unreadCountAfter db session.id (some (readDate m.createdAt))) := by
  unfold sessionCounters
  rw [hf]
  simp only [hreq]
  rfl

/-- What the call returns, and what the list of sessions shows from then on. -/
lemma markSessionRead_eq (hs : requireOwnedSession db session.userId session.id = .ok session)
    (hm : m ∈ sessionMessages db session.id) (now : ℕ) :
    ∃ db', markSessionRead db session.userId session.id (some m.id) now = .ok (0, db') ∧
      sessionCounters db' session =
        .ok (unreadCountAfter db session.id (some (readDate m.createdAt))) := by
  have hreq := requireSessionMessage_of_mem hm
  let state : ChatReadState := ⟨session.userId, session.id, some m.id, now⟩
  refine ⟨{ db with readStates := upsertReadState db.readStates state }, ?_,
    sessionCounters_of_find (find_upsertReadState db.readStates state) hreq⟩
  unfold markSessionRead
  simp only [hs, hreq, bind, Except.bind, Except.map, pure, Except.pure]
  rfl

/-- Of two tests, one within the other, the counts agree where the tests do. -/
lemma countP_eq_iff {α : Type} {p q : α → Bool} {l : List α} (h : ∀ x ∈ l, p x = true → q x = true) :
    l.countP p = l.countP q ↔ ∀ x ∈ l, q x = true → p x = true := by
  induction l with
  | nil => simp
  | cons a l ih =>
    obtain ⟨ha, hl⟩ := List.forall_mem_cons.mp h
    have hle : l.countP p ≤ l.countP q := List.countP_mono_left hl
    rw [List.forall_mem_cons, ← ih hl, List.countP_cons, List.countP_cons]
    cases hp : p a with
    | true => simp [ha hp]
    | false =>
      cases hq : q a with
      | true =>
        simp only [Bool.false_eq_true, if_false, if_true, forall_const, false_and, iff_false]
        omega
      | false => simp

lemma unreadCountAfter_iff :
    unreadCountAfter db session.id (some (readDate m.createdAt)) = assistantsAfter db session m ↔
      ReadSharp db session m := by
  have hcounted : ∀ x, (x.senderType ≠ .user && createdAfter (some (readDate m.createdAt)) x) = true ↔
      x.senderType = .assistant ∧ readDate m.createdAt < x.createdAt := fun x => by
    cases hx : x.senderType <;> simp [createdAfter]
  have hafter : ∀ x, decide (x.senderType = .assistant ∧ Before m x) = true ↔
      x.senderType = .assistant ∧ Before m x := fun x => decide_eq_true_iff
  unfold unreadCountAfter assistantsAfter ReadSharp
  by_cases hwhole : m.createdAt % 1000 = 0
  · have heq := readDate_eq.mpr hwhole
    rw [countP_eq_iff fun x _ hx => ?_]
    · simp only [hcounted, hafter, if_pos hwhole]
      simp only [heq]
      exact forall₂_congr fun x _ => ⟨fun h ha hb => (h ⟨ha, hb⟩).2, fun h hab => ⟨hab.1, h hab.1 hab.2⟩⟩
    · obtain ⟨ha, hlt⟩ := (hcounted x).mp hx
      exact (hafter x).mpr ⟨ha, .inl (heq ▸ hlt)⟩
  · have hlt : readDate m.createdAt < m.createdAt :=
      Nat.lt_of_le_of_ne (readDate_le _) (mt readDate_eq.mp hwhole)
    rw [eq_comm, countP_eq_iff fun x _ hx => ?_]
    · simp only [hcounted, hafter, if_neg hwhole]
      refine forall₂_congr fun x _ => ⟨fun h ha hb => ?_, fun h hab => ⟨hab.1, ?_⟩⟩
      · exact Nat.le_of_not_lt fun hc => hb (h ⟨ha, hc⟩).2
      · exact not_not.mp fun hb => absurd hab.2 (Nat.not_lt.mpr (h hab.1 hb))
    · obtain ⟨ha, hb⟩ := (hafter x).mp hx
      exact (hcounted x).mpr ⟨ha, hlt.trans_le hb.le⟩

lemma assistantsAfter_eq_zero : 0 = assistantsAfter db session m ↔
    ∀ x ∈ sessionMessages db session.id, x.senderType = .assistant → ¬ Before m x := by
  rw [eq_comm, assistantsAfter, List.countP_eq_zero]
  simp

/-! ### Results -/

/-- What the call answers. -/
def AnswerCounts (db : Db) (session : ChatSession) (m : ChatMessage) : Prop :=
  ∀ now count db', markSessionRead db session.userId session.id (some m.id) now = .ok (count, db') →
    count = assistantsAfter db session m

/-- What the list of sessions shows then. -/
def ListCounts (db : Db) (session : ChatSession) (m : ChatMessage) : Prop :=
  ∀ now count db', markSessionRead db session.userId session.id (some m.id) now = .ok (count, db') →
    sessionCounters db' session = .ok (assistantsAfter db session m)

lemma listCounts_iff (hs : requireOwnedSession db session.userId session.id = .ok session)
    (hm : m ∈ sessionMessages db session.id) : ListCounts db session m ↔ ReadSharp db session m := by
  rw [← unreadCountAfter_iff]
  constructor
  · intro h
    obtain ⟨db', hmark, hcount⟩ := markSessionRead_eq hs hm 0
    exact Except.ok.inj (hcount.symm.trans (h 0 0 db' hmark))
  · intro h now count db' hmark
    obtain ⟨db₁, hmark₁, hcount⟩ := markSessionRead_eq hs hm now
    cases hmark₁.symm.trans hmark
    exact h ▸ hcount

lemma answerCounts_iff (hs : requireOwnedSession db session.userId session.id = .ok session)
    (hm : m ∈ sessionMessages db session.id) : AnswerCounts db session m ↔
      ∀ x ∈ sessionMessages db session.id, x.senderType = .assistant → ¬ Before m x := by
  rw [← assistantsAfter_eq_zero]
  constructor
  · intro h
    obtain ⟨db', hmark, -⟩ := markSessionRead_eq hs hm 0
    exact h 0 0 db' hmark
  · intro h now count db' hmark
    obtain ⟨db₁, hmark₁, -⟩ := markSessionRead_eq hs hm now
    cases hmark₁.symm.trans hmark
    exact h

/-- **Pages and unread messages.** The pages of a session are complete exactly if times of whole
milliseconds tell its messages apart where a page ends. Once a message has been read, the list
of sessions counts what comes after it exactly if no message of the assistant is on the wrong
side of its millisecond, and the call does exactly if no message of the assistant comes after. -/
theorem pages_and_counts (hs : requireOwnedSession db session.userId session.id = .ok session)
    (hlimit : 0 < limit) (hm : m ∈ sessionMessages db session.id) :
    (PagesComplete db session limit ↔ PageEndsSharp db session limit) ∧
      (ListCounts db session m ↔ ReadSharp db session m) ∧
      (AnswerCounts db session m ↔
        ∀ x ∈ sessionMessages db session.id, x.senderType = .assistant → ¬ Before m x) :=
  ⟨pagesComplete_iff hs hlimit, listCounts_iff hs hm, answerCounts_iff hs hm⟩

/-! ### A suggestion -/

/-- The two messages of a quick cleanup, which one transaction inserts. -/
def quickCleanupMessages (sessionId id assistantId now : ℕ) : List ChatMessage :=
  [⟨id, sessionId, .user, "빠른 정리 제안 요청", now⟩,
   ⟨assistantId, sessionId, .assistant, "PC가 관리 루트를 분석해서 정리 제안을 만들도록 요청합니다. " ++
     "파일 변경은 별도 제안 승인 전에는 실행되지 않습니다.", now⟩]

def quickCleanup (now : ℕ) : Db where
  sessions := [⟨1, 1⟩]
  messages := quickCleanupMessages 1 1 2 now
  readStates := []
  nodup := by simp [quickCleanupMessages]

/-- A page that holds both messages is complete, and so are the counts behind the second. -/
theorem pages_and_counts_sample :
    PagesComplete (quickCleanup 1000) ⟨1, 1⟩ 3 ∧
      ∀ m ∈ (quickCleanupMessages 1 1 2 1000).tail,
        ListCounts (quickCleanup 1000) ⟨1, 1⟩ m ∧ AnswerCounts (quickCleanup 1000) ⟨1, 1⟩ m := by
  let session : ChatSession := ⟨1, 1⟩
  have hs : requireOwnedSession (quickCleanup 1000) session.userId session.id = .ok session := rfl
  have hends : PageEndsSharp (quickCleanup 1000) ⟨1, 1⟩ 3 := by
    intro pre m rest hl hdvd
    -- No page of three is full.
    have hlen : 2 = (pre ++ m :: rest).length :=
      (orderBy_perm _).length_eq.symm.trans (congrArg List.length hl)
    rw [List.length_append, List.length_cons] at hlen
    have hle := Nat.le_of_dvd (Nat.succ_pos _) hdvd
    omega
  have hmem : ∀ m ∈ (quickCleanupMessages 1 1 2 1000).tail,
      m ∈ sessionMessages (quickCleanup 1000) session.id := fun m hm => List.mem_of_mem_tail hm
  refine ⟨((pages_and_counts hs (by decide) (hmem _ List.mem_cons_self)).1).mpr hends,
    fun m hm => ?_⟩
  obtain ⟨-, hlist, hanswer⟩ := pages_and_counts hs Nat.one_pos (hmem m hm)
  obtain rfl := List.mem_singleton.mp hm
  refine ⟨hlist.mpr ?_, hanswer.mpr ?_⟩
  · simp [ReadSharp, sessionMessages, quickCleanup, quickCleanupMessages, Before]
  · simp [sessionMessages, quickCleanup, quickCleanupMessages, Before]

lemma orderBy_quickCleanup (now : ℕ) :
    orderBy (sessionMessages (quickCleanup now) 1) = quickCleanupMessages 1 1 2 now := by
  have h : (quickCleanupMessages 1 1 2 now).Pairwise fun a b => notAfter a b = true := by
    simp [quickCleanupMessages, notAfter, Before]
  exact List.mergeSort_of_pairwise h

/-- With pages of one message the second of two that were created at once is lost, and after
the last message has been read, one that was not created at a whole millisecond still counts
as unread. -/
theorem not_pages_and_counts :
    (¬ ∀ (db : Db) (session : ChatSession) (limit : ℕ),
      requireOwnedSession db session.userId session.id = .ok session → 0 < limit →
        PagesComplete db session limit) ∧
    ¬ ∀ (db : Db) (session : ChatSession) (m : ChatMessage),
      requireOwnedSession db session.userId session.id = .ok session →
        m ∈ sessionMessages db session.id → ListCounts db session m := by
  constructor
  · intro h
    have hsharp := (pagesComplete_iff rfl Nat.one_pos).mp
      (h (quickCleanup 1000) ⟨1, 1⟩ 1 rfl Nat.one_pos)
    have hlt := (hsharp [] _ _ (orderBy_quickCleanup 1000) (Nat.dvd_refl 1)).2 _ List.mem_cons_self
    exact absurd hlt (by decide)
  · intro h
    have hm : ∀ m ∈ (quickCleanupMessages 1 1 2 1500).tail, m ∈ sessionMessages (quickCleanup 1500) 1 :=
      fun m hm => List.mem_of_mem_tail hm
    have hsharp := (listCounts_iff rfl (hm _ List.mem_cons_self)).mp
      (h (quickCleanup 1500) ⟨1, 1⟩ _ rfl (hm _ List.mem_cons_self))
    have hle := hsharp _ (hm _ List.mem_cons_self) rfl (Before.irrefl _)
    exact absurd hle (by decide)

end MouseKeeper.Chat.MessagePages
