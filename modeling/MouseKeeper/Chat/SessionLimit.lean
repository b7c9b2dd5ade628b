import Mathlib.Data.List.Sort
import MouseKeeper.Schedules

/-!
How many sessions a user has in a room.

A new session is refused once five are active, and the active ones are locked before they are
counted; but rows that are inserted meanwhile are neither locked nor counted. Messages, quick
cleanups and proposals make a session where they find none. The limit holds as long as none of
these looks at the sessions of a room while another one has looked at them and is still open.
-/

namespace MouseKeeper.Chat.SessionLimit

open MouseKeeper.ReadCommitted

def CHAT_SESSION_LIMIT : ℕ := 5

def DEFAULT_CHAT_TITLE : String := "New chat"

inductive SessionStatus
  | active | deleted
  deriving DecidableEq, Repr

structure ChatSession where
  id : ℕ
  userId : ℕ
  roomId : ℕ
  title : String
  status : SessionStatus
  createdAt : ℕ
  updatedAt : ℕ
  deletedAt : Option ℕ
  deriving DecidableEq, Repr

structure Room where
  id : ℕ
  userId : ℕ
  active : Bool
  deriving DecidableEq, Repr

structure Db where
  rooms : List Room
  sessions : List ChatSession
  deriving DecidableEq, Repr

/-- The lock of a row of `chat_sessions`, and of one that has been inserted and is not yet
visible. -/
inductive Lock
  | session (id : ℕ)
  | inserted (id : ℕ)
  deriving DecidableEq

inductive Code
  | notFound | chatSessionLimitReached
  deriving DecidableEq, Repr

abbrev Program := Txn Db Lock Code ChatSession

def refuse (code : Code) : Program := .answer (.error code)

/-! ### Queries -/

def isActive (userId roomId : ℕ) (s : ChatSession) : Bool :=
  s.userId = userId ∧ s.roomId = roomId ∧ s.status = .active

def activeSessions (d : Db) (userId roomId : ℕ) : List ChatSession :=
  d.sessions.filter (isActive userId roomId)

/-- `orderBy(desc(updatedAt), desc(createdAt))`. -/
def newestFirst (a b : ChatSession) : Bool :=
  b.updatedAt < a.updatedAt ∨ b.updatedAt = a.updatedAt ∧ b.createdAt ≤ a.createdAt

def latest (d : Db) (userId roomId : ℕ) : Option ChatSession :=
  ((activeSessions d userId roomId).mergeSort newestFirst).head?

def ownsRoom (d : Db) (userId roomId : ℕ) : Bool :=
  d.rooms.any fun r => r.id = roomId ∧ r.userId = userId ∧ r.active

def requireOwnedSession (d : Db) (userId sessionId : ℕ) : Option ChatSession :=
  d.sessions.find? fun s => s.id = sessionId ∧ s.userId = userId ∧ s.status = .active ∧
    ownsRoom d userId s.roomId

/-! ### Statements -/

def insertSession (s : ChatSession) (next : Program) : Program :=
  .write (fun _ => [.inserted s.id]) (fun _ d => { d with sessions := d.sessions ++ [s] }) next

/-- `update … where id = …`. -/
def updateSession (id : ℕ) (set : ChatSession → ChatSession) (next : Program) : Program :=
  .write (fun _ => [.session id])
    (fun _ d => { d with sessions := d.sessions.map fun s => if s.id = id then set s else s }) next

/-! ### createSession -/

structure CreateSession where
  userId : ℕ
  roomId : ℕ
  title : Option String
  newId : ℕ
  now : ℕ
  deriving DecidableEq, Repr

def CreateSession.session (q : CreateSession) : ChatSession :=
  ⟨q.newId, q.userId, q.roomId, q.title.getD DEFAULT_CHAT_TITLE, .active, q.now, q.now, none⟩

def createRow (q : CreateSession) : Program := insertSession q.session (.answer (.ok q.session))

/-- The rows that were found are locked, one after the other, and looked at again: the count is
of those that are active still. -/
def countLocked (q : CreateSession) (found : List ℕ) : Program :=
  .lock (fun _ => found.map .session) fun d =>
    if CHAT_SESSION_LIMIT ≤
      ((activeSessions d q.userId q.roomId).filter fun s => s.id ∈ found).length then
      refuse .chatSessionLimitReached
    else createRow q

/-- `select … for update`, up to its first lock. -/
def lockActive (q : CreateSession) : Program :=
  .read fun d => countLocked q ((activeSessions d q.userId q.roomId).map ChatSession.id)

def createSession (q : CreateSession) : Program :=
  .read fun d => if ownsRoom d q.userId q.roomId then lockActive q else refuse .notFound

/-! ### deleteSession -/

structure DeleteSession where
  userId : ℕ
  sessionId : ℕ
  now : ℕ
  deriving DecidableEq, Repr

def DeleteSession.deleted (q : DeleteSession) (s : ChatSession) : ChatSession :=
  { s with status := .deleted, deletedAt := some q.now, updatedAt := q.now }

def deleteRow (q : DeleteSession) (current : ChatSession) : Program :=
  updateSession current.id q.deleted (.answer (.ok (q.deleted current)))

def deleteSession (q : DeleteSession) : Program :=
  .read fun d => match requireOwnedSession d q.userId q.sessionId with
    | some current => deleteRow q current
    | none => refuse .notFound

/-! ### Sessions on demand -/

/-- What wants a session: the user and the room, the title of a new one, and the title that the
session then gets. -/
structure OnDemand where
  userId : ℕ
  roomId : ℕ
  title : String
  retitled : String → String
  newId : ℕ
  now : ℕ

def OnDemand.session (o : OnDemand) : ChatSession :=
  ⟨o.newId, o.userId, o.roomId, o.title, .active, o.now, o.now, none⟩

def OnDemand.touched (o : OnDemand) (s : ChatSession) : ChatSession :=
  { s with title := o.retitled s.title, updatedAt := o.now }

/-- A message goes into the session. -/
def touchRow (o : OnDemand) (s : ChatSession) : Program :=
  updateSession s.id o.touched (.answer (.ok (o.touched s)))

def provideRow (o : OnDemand) : Program := insertSession o.session (touchRow o o.session)

def getOrCreateSystemSession (o : OnDemand) : Program :=
  .read fun d => match latest d o.userId o.roomId with
    | some s => touchRow o s
    | none => provideRow o

structure LegacyMessage where
  userId : ℕ
  roomId : ℕ
  /-- `titleFromContent` of the message. -/
  title : String
  newId : ℕ
  now : ℕ
  deriving DecidableEq, Repr

def LegacyMessage.onDemand (q : LegacyMessage) : OnDemand where
  userId := q.userId
  roomId := q.roomId
  title := q.title
  retitled := fun title => if title = DEFAULT_CHAT_TITLE then q.title else title
  newId := q.newId
  now := q.now

structure QuickCleanup where
  userId : ℕ
  roomId : ℕ
  newId : ℕ
  now : ℕ
  deriving DecidableEq, Repr

def QuickCleanup.onDemand (q : QuickCleanup) : OnDemand where
  userId := q.userId
  roomId := q.roomId
  title := "빠른 정리 제안"
  retitled := fun _ => "빠른 정리 제안"
  newId := q.newId
  now := q.now

structure ResolveSession where
  userId : ℕ
  roomId : ℕ
  /-- `sessionId` of the command's metadata. -/
  metadataSessionId : Option ℕ
  newId : ℕ
  now : ℕ
  deriving DecidableEq, Repr

def ResolveSession.onDemand (q : ResolveSession) : OnDemand where
  userId := q.userId
  roomId := q.roomId
  title := "자동 제안"
  retitled := id
  newId := q.newId
  now := q.now

/-- After the owner of the room has been checked. -/
def inOwnedRoom (o : OnDemand) : Program :=
  .read fun d =>
    if ownsRoom d o.userId o.roomId then getOrCreateSystemSession o else refuse .notFound

def createLegacyRoomMessage (q : LegacyMessage) : Program := inOwnedRoom q.onDemand

def createQuickCleanupSuggestion (q : QuickCleanup) : Program := inOwnedRoom q.onDemand

def findSession (q : ResolveSession) (sessionId : ℕ) : Program :=
  .read fun d => match (activeSessions d q.userId q.roomId).find? fun s => s.id = sessionId with
    | some s => touchRow q.onDemand s
    | none => getOrCreateSystemSession q.onDemand

def resolveSessionForCommand (q : ResolveSession) : Program :=
  match q.metadataSessionId with
  | some id => findSession q id
  | none => getOrCreateSystemSession q.onDemand

/-! ### Requests -/

inductive Request
  | createSession (q : CreateSession)
  | deleteSession (q : DeleteSession)
  | legacyMessage (q : LegacyMessage)
  | quickCleanup (q : QuickCleanup)
  | resolveSession (q : ResolveSession)

def body : Request → Program
  | .createSession q => createSession q
  | .deleteSession q => deleteSession q
  | .legacyMessage q => createLegacyRoomMessage q
  | .quickCleanup q => createQuickCleanupSuggestion q
  | .resolveSession q => resolveSessionForCommand q

abbrev OpenCall := Call Request Db Lock Code ChatSession

abbrev World := State Request Db Lock Code ChatSession

/-! ### What is wanted -/

/-- The user and the room for which a request may make a session. -/
def Request.owner : Request → Option (ℕ × ℕ)
  | .createSession q => some (q.userId, q.roomId)
  | .deleteSession _ => none
  | .legacyMessage q => some (q.userId, q.roomId)
  | .quickCleanup q => some (q.userId, q.roomId)
  | .resolveSession q => some (q.userId, q.roomId)

def Request.onDemand : Request → Option OnDemand
  | .legacyMessage q => some q.onDemand
  | .quickCleanup q => some q.onDemand
  | .resolveSession q => some q.onDemand
  | _ => none

/-- The call is about to look at the sessions. -/
def Looking (c : OpenCall) : Prop :=
  (∃ q, c.request = .createSession q ∧ c.rest = lockActive q) ∨
    ∃ o, c.request.onDemand = some o ∧ c.rest = getOrCreateSystemSession o

/-- What is left of a call that has looked and may make a session. -/
inductive Deciding : Request → Program → Prop
  | countLocked (q : CreateSession) (found : List ℕ) :
    Deciding (.createSession q) (countLocked q found)
  | createRow (q : CreateSession) : Deciding (.createSession q) (createRow q)
  | provideRow {q : Request} {o : OnDemand} (ho : q.onDemand = some o) : Deciding q (provideRow o)

/-- The call has looked, and may make a session or has made one. -/
def Making (c : OpenCall) : Prop := Deciding c.request c.rest ∨ ∃ id, .inserted id ∈ c.held

/-- A call that looks at the sessions of a user in a room finds no other one that has looked
at them and may make one more. -/
def Apart (s : World) (e : Event Request Code ChatSession) : Prop :=
  ∀ i c, e = .stmt i → s.calls i = some c → Looking c →
    ∀ j c', j ≠ i → s.calls j = some c' → Making c' → c'.request.owner ≠ c.request.owner

def WithinLimit (d : Db) : Prop :=
  ∀ userId roomId, (activeSessions d userId roomId).length ≤ CHAT_SESSION_LIMIT

/-- The limit holds, and a session is refused only where it has been reached. -/
structure Limited (s : World) : Prop where
  limit : WithinLimit s.db
  refused : ∀ {i c q}, s.calls i = some c → c.request = .createSession q →
    c.rest = refuse .chatSessionLimitReached →
    CHAT_SESSION_LIMIT ≤ (activeSessions s.db q.userId q.roomId).length

/-! ### Changes of the rows -/

variable {d d' : Db} {held : List Lock} {userId roomId rowId : ℕ} {x : ChatSession}

/-- The active sessions whose rows are locked. -/
def lockedActive (d : Db) (held : List Lock) (userId roomId : ℕ) : ℕ :=
  d.sessions.countP fun s => isActive userId roomId s && decide (Lock.session s.id ∈ held)

lemma lockedActive_le : lockedActive d held userId roomId ≤ (activeSessions d userId roomId).length := by
  rw [activeSessions, ← List.countP_eq_length_filter]
  exact List.countP_mono_left fun s _ hs => (Bool.and_eq_true _ _ ▸ hs).1

/-- No session of the user in the room has become active. -/
def Shrinks (userId roomId : ℕ) (d d' : Db) : Prop :=
  ((activeSessions d' userId roomId).map ChatSession.id).Sublist
    ((activeSessions d userId roomId).map ChatSession.id)

lemma Shrinks.length_le (h : Shrinks userId roomId d d') :
    (activeSessions d' userId roomId).length ≤ (activeSessions d userId roomId).length := by
  simpa using List.Sublist.length_le h

/-- What an update makes of a row: another title and time, or no longer active. -/
def Tame (set : ChatSession → ChatSession) : Prop :=
  ∀ s, (set s).id = s.id ∧ (set s).userId = s.userId ∧ (set s).roomId = s.roomId ∧
    ((set s).status = .active → s.status = .active)

def updated (id : ℕ) (set : ChatSession → ChatSession) (d : Db) : Db :=
  { d with sessions := d.sessions.map fun s => if s.id = id then set s else s }

def added (s : ChatSession) (d : Db) : Db := { d with sessions := d.sessions ++ [s] }

variable {set : ChatSession → ChatSession}

lemma isActive_set (h : Tame set) (hs : isActive userId roomId (set x) = true) :
    isActive userId roomId x = true := by
  obtain ⟨-, huser, hroom, hstatus⟩ := h x
  simp only [isActive, decide_eq_true_eq, huser, hroom] at hs ⊢
  exact ⟨hs.1, hs.2.1, hstatus hs.2.2⟩

lemma shrinks_updated (h : Tame set) : Shrinks userId roomId d (updated rowId set d) := by
  unfold Shrinks activeSessions updated
  induction d.sessions with
  | nil => exact List.Sublist.refl _
  | cons s l ih =>
    rw [List.map_cons]
    by_cases hid : s.id = rowId
    · rw [if_pos hid]
      by_cases ha : isActive userId roomId (set s) = true
      · rw [List.filter_cons_of_pos ha, List.filter_cons_of_pos (isActive_set h ha), List.map_cons,
          List.map_cons, (h s).1]
        exact ih.cons_cons _
      · rw [List.filter_cons_of_neg ha]
        refine ih.trans ?_
        by_cases hs : isActive userId roomId s = true
        · rw [List.filter_cons_of_pos hs]
          exact List.sublist_cons_self ..
        · rw [List.filter_cons_of_neg hs]
    · rw [if_neg hid]
      by_cases hs : isActive userId roomId s = true
      · rw [List.filter_cons_of_pos hs, List.filter_cons_of_pos hs]
        exact ih.cons_cons _
      · rw [List.filter_cons_of_neg hs, List.filter_cons_of_neg hs]
        exact ih

/-- A row that another call has locked stays as it is. -/
lemma lockedActive_updated (hid : Lock.session rowId ∉ held) :
    lockedActive d held userId roomId ≤ lockedActive (updated rowId set d) held userId roomId := by
  unfold lockedActive updated
  rw [List.countP_map]
  refine List.countP_mono_left fun s _ hs => ?_
  have hne : s.id ≠ rowId := by
    rintro rfl
    simp [hid] at hs
  simpa [hne] using hs

lemma activeSessions_added (s : ChatSession) : activeSessions (added s d) userId roomId =
    activeSessions d userId roomId ++ if isActive userId roomId s then [s] else [] := by
  unfold activeSessions added
  rw [List.filter_append, List.filter_singleton, Bool.cond_eq_ite]

lemma shrinks_added (hs : isActive userId roomId x = false) :
    Shrinks userId roomId d (added x d) := by
  unfold Shrinks
  rw [activeSessions_added, hs]
  simp

lemma lockedActive_added :
    lockedActive d held userId roomId ≤ lockedActive (added x d) held userId roomId := by
  unfold lockedActive added
  rw [List.countP_append]
  exact Nat.le_add_right ..

/-! ### Open calls -/

/-- Where a call stands: what it has changed, what is left of it, and what it knows. The last
index says whether it may make a session or has made one. -/
inductive Place (d : Db) (held : List Lock) : Request → (Db → Db) → Program → Bool → Prop
  | createSession (q : CreateSession) : Place d held (.createSession q) id (createSession q) false
  | lockActive (q : CreateSession) : Place d held (.createSession q) id (lockActive q) false
  | countLocked (q : CreateSession) (found : List ℕ)
    (h : ∀ x ∈ (activeSessions d q.userId q.roomId).map ChatSession.id, x ∈ found) :
    Place d held (.createSession q) id (countLocked q found) true
  | full (q : CreateSession) (h : CHAT_SESSION_LIMIT ≤ lockedActive d held q.userId q.roomId) :
    Place d held (.createSession q) id (refuse .chatSessionLimitReached) false
  | createRow (q : CreateSession)
    (h : (activeSessions d q.userId q.roomId).length < CHAT_SESSION_LIMIT) :
    Place d held (.createSession q) id (createRow q) true
  | created (q : CreateSession) (hi : .inserted q.newId ∈ held)
    (h : (activeSessions d q.userId q.roomId).length < CHAT_SESSION_LIMIT) :
    Place d held (.createSession q) (added q.session) (.answer (.ok q.session)) true
  | notFound (q : Request) : Place d held q id (refuse .notFound) false
  | deleteSession (q : DeleteSession) : Place d held (.deleteSession q) id (deleteSession q) false
  | deleteRow (q : DeleteSession) (s : ChatSession) :
    Place d held (.deleteSession q) id (deleteRow q s) false
  | deleted (q : DeleteSession) (s : ChatSession) (hl : .session s.id ∈ held) :
    Place d held (.deleteSession q) (updated s.id q.deleted) (.answer (.ok (q.deleted s))) false
  | inOwnedRoom {q : Request} {o : OnDemand} (ho : q.onDemand = some o) :
    Place d held q id (inOwnedRoom o) false
  | findSession (q : ResolveSession) (sessionId : ℕ) :
    Place d held (.resolveSession q) id (findSession q sessionId) false
  | getOrCreate {q : Request} {o : OnDemand} (ho : q.onDemand = some o) :
    Place d held q id (getOrCreateSystemSession o) false
  | touchRow {q : Request} {o : OnDemand} (ho : q.onDemand = some o) (s : ChatSession) :
    Place d held q id (touchRow o s) false
  | touched {q : Request} {o : OnDemand} (ho : q.onDemand = some o) (s : ChatSession)
    (hl : .session s.id ∈ held) :
    Place d held q (updated s.id o.touched) (.answer (.ok (o.touched s))) false
  | provideRow {q : Request} {o : OnDemand} (ho : q.onDemand = some o)
    (h : activeSessions d o.userId o.roomId = []) : Place d held q id (provideRow o) true
  | provided {q : Request} {o : OnDemand} (ho : q.onDemand = some o) (hi : .inserted o.newId ∈ held)
    (h : activeSessions d o.userId o.roomId = []) :
    Place d held q (added o.session) (touchRow o o.session) true
  | made {q : Request} {o : OnDemand} (ho : q.onDemand = some o) (hi : .inserted o.newId ∈ held)
    (hl : .session o.newId ∈ held) (h : activeSessions d o.userId o.roomId = []) :
    Place d held q (fun d' => updated o.newId o.touched (added o.session d'))
      (.answer (.ok (o.touched o.session))) true

lemma owner_onDemand {q : Request} {o : OnDemand} (ho : q.onDemand = some o) :
    q.owner = some (o.userId, o.roomId) := by
  cases q <;> cases ho <;> rfl

lemma shrinks_nil (h : Shrinks userId roomId d d') (hd : activeSessions d userId roomId = []) :
    activeSessions d' userId roomId = [] := by
  have := h.length_le
  rw [hd] at this
  exact List.length_eq_zero_iff.mp (Nat.le_zero.mp this)

/-- A call knows what it knows as long as no session appears where it may make one and the rows
that it has locked stay. -/
lemma Place.mono {q : Request} {f : Db → Db} {t : Program} {m : Bool} (h : Place d held q f t m)
    (hs : m = true → ∀ userId roomId, q.owner = some (userId, roomId) → Shrinks userId roomId d d')
    (hl : ∀ userId roomId, lockedActive d held userId roomId ≤ lockedActive d' held userId roomId) :
    Place d' held q f t m := by
  cases h with
  | createSession q => exact .createSession q
  | lockActive q => exact .lockActive q
  | countLocked q found h =>
    exact .countLocked q found fun x hx => h x (List.Sublist.subset (hs rfl _ _ rfl) hx)
  | full q h => exact .full q (h.trans (hl _ _))
  | createRow q h => exact .createRow q ((hs rfl _ _ rfl).length_le.trans_lt h)
  | created q hi h => exact .created q hi ((hs rfl _ _ rfl).length_le.trans_lt h)
  | notFound q => exact .notFound q
  | deleteSession q => exact .deleteSession q
  | deleteRow q s => exact .deleteRow q s
  | deleted q s hl => exact .deleted q s hl
  | inOwnedRoom ho => exact .inOwnedRoom ho
  | findSession q sessionId => exact .findSession q sessionId
  | getOrCreate ho => exact .getOrCreate ho
  | touchRow ho s => exact .touchRow ho s
  | touched ho s hl => exact .touched ho s hl
  | provideRow ho h => exact .provideRow ho (shrinks_nil (hs rfl _ _ (owner_onDemand ho)) h)
  | provided ho hi h => exact .provided ho hi (shrinks_nil (hs rfl _ _ (owner_onDemand ho)) h)
  | made ho hi hl' h => exact .made ho hi hl' (shrinks_nil (hs rfl _ _ (owner_onDemand ho)) h)

/-- A place where a session may be made shows in the call. -/
lemma Place.making {c : OpenCall} (h : Place d c.held c.request c.change c.rest true) : Making c := by
  obtain ⟨q, held, f, t⟩ := c
  generalize hm : true = m at h
  cases h with
  | countLocked q found h => exact .inl (.countLocked q found)
  | createRow q h => exact .inl (.createRow q)
  | created q hi h => exact .inr ⟨_, hi⟩
  | provideRow ho h => exact .inl (.provideRow ho)
  | provided ho hi h => exact .inr ⟨_, hi⟩
  | made ho hi hl h => exact .inr ⟨_, hi⟩
  | _ => cases hm

/-- What is found for a user and a room is a session of theirs. -/
lemma latest_eq_none (h : latest d userId roomId = none) : activeSessions d userId roomId = [] := by
  rw [latest, List.head?_eq_none_iff] at h
  exact List.length_eq_zero_iff.mp (by rw [← List.length_mergeSort, h, List.length_nil])

/-- A request starts at one of its places. -/
lemma place_start (q : Request) : Place d [] q id (body q) false := by
  cases q with
  | createSession q => exact .createSession q
  | deleteSession q => exact .deleteSession q
  | legacyMessage q => exact .inOwnedRoom rfl
  | quickCleanup q => exact .inOwnedRoom rfl
  | resolveSession q =>
    simp only [body, resolveSessionForCommand]
    split
    · exact .findSession q _
    · exact .getOrCreate rfl

/-- The rows that were counted under their locks are all active ones. -/
lemma locked_of_found {q : CreateSession} {found : List ℕ}
    (h : ∀ x ∈ (activeSessions d q.userId q.roomId).map ChatSession.id, x ∈ found) :
    (activeSessions d q.userId q.roomId).filter (fun s => s.id ∈ found) =
      activeSessions d q.userId q.roomId :=
  List.filter_eq_self.mpr fun s hs => by simpa using h s.id (List.mem_map_of_mem hs)

lemma lockedActive_found {found : List ℕ}
    (h : ∀ x ∈ (activeSessions d userId roomId).map ChatSession.id, x ∈ found) :
    (activeSessions d userId roomId).length ≤
      lockedActive d (found.map Lock.session ++ held) userId roomId := by
  rw [activeSessions, ← List.countP_eq_length_filter, lockedActive]
  refine List.countP_mono_left fun s hs ha => ?_
  have hmem : s.id ∈ found := h s.id (List.mem_map_of_mem (List.mem_filter.mpr ⟨hs, ha⟩))
  simp [ha, hmem]

lemma place_ite {q : Request} {t : Program} {b : Bool} (h : Place d held q id t false) :
    Place d held q id (if b then t else refuse .notFound) false := by
  cases b with
  | false => exact .notFound q
  | true => exact h

lemma place_getOrCreate {q : Request} {o : OnDemand} (ho : q.onDemand = some o) {s : Option ChatSession}
    (hs : s = none → activeSessions d o.userId o.roomId = []) :
    ∃ m, Place d held q id (match s with | some s => touchRow o s | none => provideRow o) m := by
  cases s with
  | none => exact ⟨true, .provideRow ho (hs rfl)⟩
  | some s => exact ⟨false, .touchRow ho s⟩

/-- **One statement**: the call is at a place again, and it may make a session only if it might
before or has just looked. -/
lemma Place.stmt {c : OpenCall} {locks : Db → List Lock} {change : Db → Db → Db}
    {next : Db → Program} {m : Bool} (h : Place d c.held c.request c.change c.rest m)
    (hr : c.rest = .stmt locks change next) :
    ∃ m', Place d (c.advance d locks change next).held c.request
        (c.advance d locks change next).change (c.advance d locks change next).rest m' ∧
      (m' = true → m = true ∨ Looking c) := by
  obtain ⟨q, held, f, t⟩ := c
  cases h with
  | createSession q =>
    cases hr
    exact ⟨false, place_ite (.lockActive q), nofun⟩
  | lockActive q =>
    cases hr
    exact ⟨true, .countLocked q _ fun _ hx => hx, fun _ => .inr (.inl ⟨q, rfl, rfl⟩)⟩
  | countLocked q found h =>
    cases hr
    simp only [Call.advance, Call.view, locked_of_found h]
    split_ifs with hfull
    · exact ⟨false, .full q (hfull.trans (lockedActive_found h)), nofun⟩
    · exact ⟨true, .createRow q (Nat.lt_of_not_le hfull), fun _ => .inl trivial⟩
  | full q h => cases hr
  | createRow q h =>
    cases hr
    exact ⟨true, .created q List.mem_cons_self h, fun _ => .inl rfl⟩
  | created q hi h => cases hr
  | notFound q => cases hr
  | deleteSession q =>
    cases hr
    refine ⟨false, ?_, nofun⟩
    simp only [Call.advance, Call.view]
    split
    · exact .deleteRow q _
    · exact .notFound _
  | deleteRow q s =>
    cases hr
    exact ⟨false, .deleted q s List.mem_cons_self, nofun⟩
  | deleted q s hl => cases hr
  | inOwnedRoom ho =>
    cases hr
    exact ⟨false, place_ite (.getOrCreate ho), nofun⟩
  | findSession q sessionId =>
    cases hr
    refine ⟨false, ?_, nofun⟩
    simp only [Call.advance, Call.view]
    split
    · exact .touchRow rfl _
    · exact .getOrCreate rfl
  | @getOrCreate q o ho =>
    cases hr
    obtain ⟨m, hm⟩ : ∃ m, Place d held q id (match latest d o.userId o.roomId with
        | some s => SessionLimit.touchRow o s
        | none => SessionLimit.provideRow o) m := place_getOrCreate ho latest_eq_none
    exact ⟨m, hm, fun _ => .inr (.inr ⟨_, ho, rfl⟩)⟩
  | touchRow ho s =>
    cases hr
    exact ⟨false, .touched ho s List.mem_cons_self, nofun⟩
  | touched ho s hl => cases hr
  | provideRow ho h =>
    cases hr
    exact ⟨true, .provided ho List.mem_cons_self h, fun _ => .inl rfl⟩
  | provided ho hi h =>
    cases hr
    exact ⟨true, .made ho (List.mem_cons_of_mem _ hi) List.mem_cons_self h, fun _ => .inl rfl⟩
  | made ho hi hl h => cases hr

/-! ### Commits -/

lemma tame_deleted (q : DeleteSession) : Tame q.deleted := fun _ => ⟨rfl, rfl, rfl, nofun⟩

lemma tame_touched (o : OnDemand) : Tame o.touched := fun _ => ⟨rfl, rfl, rfl, id⟩

lemma isActive_session (s : ChatSession) (hs : s.status = .active) :
    isActive userId roomId s = decide (s.userId = userId ∧ s.roomId = roomId) := by
  simp [isActive, hs]

/-- **A commit** keeps the limit, lets no session appear for another owner and leaves the rows
that others have locked. -/
lemma Place.commit {q : Request} {f : Db → Db} {s : ChatSession} {m : Bool}
    (h : Place d held q f (.answer (.ok s)) m) (hd : WithinLimit d) :
    WithinLimit (f d) ∧
      (∀ userId roomId, q.owner ≠ some (userId, roomId) ∨ m = false →
        Shrinks userId roomId d (f d)) ∧
      ∀ held', List.Disjoint held held' → ∀ userId roomId,
        lockedActive d held' userId roomId ≤ lockedActive (f d) held' userId roomId := by
  cases h with
  | deleted q s hl =>
    exact ⟨fun u r => (shrinks_updated (tame_deleted q)).length_le.trans (hd u r),
      fun _ _ _ => shrinks_updated (tame_deleted q),
      fun _ hdis _ _ => lockedActive_updated fun hm => hdis hl hm⟩
  | touched ho s hl =>
    exact ⟨fun u r => (shrinks_updated (tame_touched _)).length_le.trans (hd u r),
      fun _ _ _ => shrinks_updated (tame_touched _),
      fun _ hdis _ _ => lockedActive_updated fun hm => hdis hl hm⟩
  | created q hi h =>
    have hother : ∀ u r, (Request.createSession q).owner ≠ some (u, r) →
        isActive u r q.session = false := fun u r hne => by
      rw [isActive_session _ rfl, decide_eq_false_iff_not]
      simpa [Request.owner, CreateSession.session] using hne
    refine ⟨fun u r => ?_, fun u r hne => shrinks_added (hother u r (by simpa using hne)),
      fun _ _ _ _ => lockedActive_added⟩
    by_cases hne : (Request.createSession q).owner = some (u, r)
    · cases hne
      rw [activeSessions_added, List.length_append]
      split_ifs
      · exact h
      · exact h.le
    · exact (shrinks_added (hother u r hne)).length_le.trans (hd u r)
  | @made q o ho hi hl h =>
    have hother : ∀ u r, q.owner ≠ some (u, r) → isActive u r o.session = false := fun u r hne => by
      rw [isActive_session _ rfl, decide_eq_false_iff_not]
      rw [owner_onDemand ho] at hne
      simpa [OnDemand.session] using hne
    have htame : ∀ u r, Shrinks u r (added o.session d) (updated o.newId o.touched (added o.session d)) :=
      fun u r => shrinks_updated (tame_touched o)
    refine ⟨fun u r => (htame u r).length_le.trans ?_, fun u r hne => ?_, fun held' hdis u r => ?_⟩
    · by_cases hne : q.owner = some (u, r)
      · rw [owner_onDemand ho] at hne
        cases hne
        rw [activeSessions_added, h, List.nil_append]
        split_ifs <;> simp [CHAT_SESSION_LIMIT]
      · exact (shrinks_added (hother u r hne)).length_le.trans (hd u r)
    · exact List.Sublist.trans (htame u r) (shrinks_added (hother u r (by simpa using hne)))
    · exact lockedActive_added.trans (lockedActive_updated fun hm => hdis hl hm)

/-! ### Runs -/

variable {s s' : World} {e : Event Request Code ChatSession}

/-- What holds throughout, with a mark for the calls that may make a session. -/
structure Sound (s : World) (m : ℕ → Bool) : Prop where
  limit : WithinLimit s.db
  place : ∀ {i c}, s.calls i = some c → Place s.db c.held c.request c.change c.rest (m i)
  apart : ∀ {i j c c'}, i ≠ j → s.calls i = some c → s.calls j = some c' →
    List.Disjoint c.held c'.held
  alone : ∀ {i j c c'}, i ≠ j → s.calls i = some c → s.calls j = some c' → m i = true →
    m j = true → c.request.owner ≠ c'.request.owner

lemma Sound.drop {m : ℕ → Bool} (h : Sound s m) (i : ℕ) :
    Sound ⟨s.db, Function.update s.calls i none⟩ m where
  limit := h.limit
  place := fun hc => h.place (calls_drop hc).2
  apart := fun hij hi hj => h.apart hij (calls_drop hi).2 (calls_drop hj).2
  alone := fun hij hi hj => h.alone hij (calls_drop hi).2 (calls_drop hj).2

lemma Sound.put {m : ℕ → Bool} {i : ℕ} {c : OpenCall} {mi : Bool} (h : Sound s m)
    (hp : Place s.db c.held c.request c.change c.rest mi) (hf : ∀ l ∈ c.held, s.Free i l)
    (ha : mi = true → ∀ j c', j ≠ i → s.calls j = some c' → m j = true →
      c'.request.owner ≠ c.request.owner) :
    Sound ⟨s.db, Function.update s.calls i (some c)⟩ (Function.update m i mi) where
  limit := h.limit
  place := by
    intro j c' hc'
    rcases calls_set hc' with ⟨rfl, rfl⟩ | ⟨hj, hc'⟩
    · rwa [Function.update_self]
    · rw [Function.update_of_ne hj]
      exact h.place hc'
  apart := by
    intro j k c₁ c₂ hjk hj hk
    rcases calls_set hj with ⟨rfl, rfl⟩ | ⟨hji, hc₁⟩
    · obtain ⟨hkj, -⟩ | ⟨hki, hc₂⟩ := calls_set hk
      · exact absurd hkj.symm hjk
      · exact fun l hl hl' => hf l hl k c₂ hki hc₂ hl'
    · rcases calls_set hk with ⟨rfl, rfl⟩ | ⟨hki, hc₂⟩
      · exact fun l hl hl' => hf l hl' j c₁ hji hc₁ hl
      · exact h.apart hjk hc₁ hc₂
  alone := by
    intro j k c₁ c₂ hjk hj hk hmj hmk
    rcases calls_set hj with ⟨rfl, rfl⟩ | ⟨hji, hc₁⟩
    · obtain ⟨hkj, -⟩ | ⟨hki, hc₂⟩ := calls_set hk
      · exact absurd hkj.symm hjk
      · rw [Function.update_self] at hmj
        rw [Function.update_of_ne hki] at hmk
        exact (ha hmj k c₂ hki hc₂ hmk).symm
    · rw [Function.update_of_ne hji] at hmj
      rcases calls_set hk with ⟨rfl, rfl⟩ | ⟨hki, hc₂⟩
      · rw [Function.update_self] at hmk
        exact ha hmk j c₁ hji hc₁ hmj
      · rw [Function.update_of_ne hki] at hmk
        exact h.alone hjk hc₁ hc₂ hmj hmk

/-- **One step keeps the limit**, where no call looks while another one is making a session. -/
lemma Sound.step {m : ℕ → Bool} (h : Sound s m) (hok : Apart s e) (hs : Step body s e s') :
    ∃ m', Sound s' m' := by
  cases hs with
  | begin i q hi =>
    exact ⟨_, h.put (place_start q) (fun l hl => absurd hl List.not_mem_nil) nofun⟩
  | @stmt i c locks change next hc hr hl =>
    obtain ⟨mi, hp, hmi⟩ := (h.place hc).stmt hr
    refine ⟨_, h.put hp (fun l hm => ?_) fun htrue j c' hj hc' hmj => ?_⟩
    · rcases List.mem_append.mp hm with hm | hm
      · exact hl l hm
      · exact fun j c' hj hc' => h.apart (Ne.symm hj) hc hc' hm
    · rcases hmi htrue with hmi | hlook
      · have := h.alone hj hc' hc hmj hmi
        exact this
      · have hp' := h.place hc'
        rw [hmj] at hp'
        exact hok i c rfl hc hlook j c' hj hc' hp'.making
  | @commit i c r hc hr =>
    have hplace := h.place hc
    rw [hr] at hplace
    obtain ⟨hlimit, hshrinks, hlocked⟩ := hplace.commit h.limit
    refine ⟨m, hlimit, fun {j c'} hc' => ?_, fun hij hi hj =>
      h.apart hij (calls_drop hi).2 (calls_drop hj).2, fun hij hi hj =>
      h.alone hij (calls_drop hi).2 (calls_drop hj).2⟩
    obtain ⟨hj, hc'⟩ := calls_drop hc'
    refine (h.place hc').mono (fun hmj u r howner => hshrinks u r ?_)
      (hlocked _ (h.apart (Ne.symm hj) hc hc'))
    cases hmi : m i with
    | false => exact .inr rfl
    | true => exact .inl fun hi => h.alone (Ne.symm hj) hc hc' hmi hmj (hi.trans howner.symm)
  | refuse hc hr => exact ⟨m, h.drop _⟩
  | abort hc => exact ⟨m, h.drop _⟩

lemma Sound.limited {m : ℕ → Bool} (h : Sound s m) : Limited s where
  limit := h.limit
  refused := by
    intro i c q hc hq hr
    have hplace := h.place hc
    rw [hq, hr] at hplace
    generalize m i = mi, c.change = f at hplace
    cases hplace with
    | full q hfull => exact hfull.trans lockedActive_le

/-- **Five sessions**: from a database within the limit, every run in which the calls that make
sessions keep apart stays within it, and a session is refused only where the limit is reached. -/
theorem sessions_limited (hd : WithinLimit d) (hr : RunsWhere body Apart (.quiet d) s) :
    Limited s := by
  have hquiet : Sound (.quiet d) fun _ => false := ⟨hd, nofun, nofun, nofun⟩
  have hend : ∃ m, Sound s m :=
    hr.invariant (I := fun s => ∃ m, Sound s m) (fun ⟨_, h⟩ hok hs => h.step hok hs) ⟨_, hquiet⟩
  obtain ⟨m, hm⟩ := hend
  exact hm.limited

/-- A user with a room, and four sessions in it. -/
def fourSessions : Db where
  rooms := [⟨1, 1, true⟩]
  sessions := [⟨1, 1, 1, "New chat", .active, 1, 1, none⟩, ⟨2, 1, 1, "New chat", .active, 2, 2, none⟩,
    ⟨3, 1, 1, "New chat", .active, 3, 3, none⟩, ⟨4, 1, 1, "New chat", .active, 4, 4, none⟩]

def firstNew : CreateSession := ⟨1, 1, none, 5, 5⟩

def secondNew : CreateSession := ⟨1, 1, none, 6, 6⟩

lemma withinLimit_fourSessions : WithinLimit fourSessions := fun userId roomId =>
  (List.length_filter_le ..).trans (by decide)

/-- One call at a time keeps apart. -/
lemma apart_of_below {n : ℕ} (hn : n ≤ 1) (h : s.Below n) : Apart s e := by
  intro i c _ hc _ j c' hj hc' _
  have := h.lt hc
  have := h.lt hc'
  omega

/-- A session is made, and the next one is about to be refused. -/
def oneByOne : List (Move Request) :=
  [.begin 0 (.createSession firstNew), .stmt 0, .stmt 0, .stmt 0, .stmt 0, .commit 0,
    .begin 0 (.createSession secondNew), .stmt 0, .stmt 0, .stmt 0]

theorem sessions_limited_sample :
    ∃ s, (State.quiet fourSessions).schedule body 1 oneByOne = some s ∧ Limited s := by
  have hsome : ((State.quiet fourSessions).schedule body 1 oneByOne).isSome = true := by
    decide +kernel
  obtain ⟨s, hs⟩ := Option.isSome_iff_exists.mp hsome
  exact ⟨s, hs, sessions_limited withinLimit_fourSessions
    (runsWhere_schedule (fun _ _ => apart_of_below le_rfl) (below_quiet _) hs)⟩

/-- Both look before either has made its session. -/
def bothLook : List (Move Request) :=
  [.begin 0 (.createSession firstNew), .begin 1 (.createSession secondNew), .stmt 0, .stmt 1,
    .stmt 0, .stmt 1, .stmt 0, .stmt 0, .commit 0, .stmt 1, .stmt 1, .commit 1]

lemma bothLook_active : ((State.quiet fourSessions).schedule body 2 bothLook).map (fun s =>
    (activeSessions s.db 1 1).length) = some 6 := by
  decide +kernel

/-- Two sessions are made at once, and there are six. -/
theorem not_sessions_limited : ¬ ∀ d s, WithinLimit d → Runs body always (.quiet d) s → Limited s := by
  intro h
  obtain ⟨s, hs, hactive⟩ := Option.map_eq_some_iff.mp bothLook_active
  have hl := (h fourSessions s withinLimit_fourSessions (runs_schedule (below_quiet _) hs)).limit 1 1
  rw [hactive] at hl
  exact absurd hl (by decide)

end MouseKeeper.Chat.SessionLimit
