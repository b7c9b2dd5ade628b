import MouseKeeper.Schedules

/-!
Pairing a desktop.

A desktop creates a session and shows its code; a user claims the code, which makes the desktop a
device of theirs; the desktop polls the session with its nonce and gets a token for the device. A
user has one device at a time and revokes it before the next. Of the revocation this is the part
that concerns the device row; rooms and their work go with it elsewhere.
-/

namespace MouseKeeper.Server.Pairing

open MouseKeeper.ReadCommitted

inductive Platform
  | WINDOWS | MACOS
  deriving DecidableEq, Repr

/-- Six digits. -/
abbrev PairingCode := Fin 1000000

/-- A row of `pairing_sessions`, for hashes in `H`. -/
structure PairingSession (H : Type) where
  id : ℕ
  desktopNonce : String
  pairingCodeHash : H
  deviceName : String
  platform : Platform
  publicKey : Option String
  expiresAt : ℕ
  claimedByUserId : Option ℕ
  claimedDeviceId : Option ℕ
  claimedAt : Option ℕ
  /-- The code that the desktop shows; the table has its hash only. -/
  code : PairingCode
  deriving DecidableEq, Repr

structure Device where
  id : ℕ
  userId : ℕ
  platform : Platform
  deviceName : String
  publicKey : Option String
  active : Bool
  deriving DecidableEq, Repr

structure Receipt where
  actorScope : String
  idempotencyKey : String
  deviceId : ℕ
  deriving DecidableEq, Repr

structure Db (H : Type) where
  sessions : List (PairingSession H)
  devices : List Device
  receipts : List Receipt
  deriving DecidableEq, Repr

def Db.empty {H : Type} : Db H := ⟨[], [], []⟩

/-- What an advisory lock is taken on. -/
inductive Advisory
  | user (userId : ℕ)
  | receipt (actorScope key : String)
  deriving DecidableEq

/-- The lock of a row, of the entry of a unique index, or of the hash of a text. -/
inductive Lock (H A : Type)
  | session (id : ℕ)
  | nonce (desktopNonce : String)
  | codeHash (pairingCodeHash : H)
  | device (id : ℕ)
  | advisory (hash : A)
  deriving DecidableEq

inductive Code
  | notFound | conflict | deviceAlreadyPaired | idempotencyConflict
  deriving DecidableEq, Repr

inductive Answer
  | created (sessionId : ℕ) (desktopNonce : String) (code : PairingCode) (expiresAt : ℕ)
  | device (device : Device)
  | pending (expiresAt : ℕ)
  /-- With a device token for this device. -/
  | claimed (deviceId : ℕ)
  | revoked
  deriving DecidableEq, Repr

variable {H A : Type}

abbrev Program (H A : Type) := Txn (Db H) (Lock H A) Code Answer

def refuse (code : Code) : Program H A := .answer (.error code)

/-! ### create -/

/-- A request with what it draws: a code, a nonce, an identifier. -/
structure Create where
  deviceName : String
  platform : Platform
  publicKey : Option String
  code : PairingCode
  desktopNonce : String
  newId : ℕ
  now : ℕ
  deriving DecidableEq, Repr

/-- Ten minutes. -/
def lifetime : ℕ := 10 * 60 * 1000

section Body

variable [DecidableEq H] (hashCode : PairingCode → H) (hashtext : Advisory → A)

def Create.session (q : Create) : PairingSession H :=
  ⟨q.newId, q.desktopNonce, hashCode q.code, q.deviceName, q.platform, q.publicKey,
    q.now + lifetime, none, none, none, q.code⟩

/-- A unique index has an entry of the new row. -/
def Db.hasSession (d : Db H) (p : PairingSession H) : Bool :=
  d.sessions.any fun x => x.id = p.id ∨ x.desktopNonce = p.desktopNonce ∨
    x.pairingCodeHash = p.pairingCodeHash

def Db.addSession (p : PairingSession H) (d : Db H) : Db H :=
  { d with sessions := d.sessions ++ [p] }

def create (q : Create) : Program H A :=
  let p := q.session hashCode
  .stmt (fun _ => [.session p.id, .nonce p.desktopNonce, .codeHash p.pairingCodeHash])
    (fun v d => if v.hasSession p then d else d.addSession p) fun v =>
      if v.hasSession p then refuse .conflict
      else .answer (.ok (.created p.id p.desktopNonce q.code p.expiresAt))

/-! ### claim -/

structure Claim where
  userId : ℕ
  code : PairingCode
  newId : ℕ
  now : ℕ
  claimedAt : ℕ
  deriving DecidableEq, Repr

/-- The session of the code that is neither claimed nor expired. -/
def Db.claimable (d : Db H) (q : Claim) : Option (PairingSession H) :=
  d.sessions.find? fun p => p.pairingCodeHash = hashCode q.code ∧ p.claimedAt = none ∧
    q.now < p.expiresAt

def Claim.device (q : Claim) (p : PairingSession H) : Device :=
  ⟨q.newId, q.userId, p.platform, p.deviceName, p.publicKey, true⟩

def Db.addDevice (x : Device) (d : Db H) : Db H := { d with devices := d.devices ++ [x] }

def Claim.claimed (q : Claim) (p : PairingSession H) : PairingSession H :=
  { p with
    claimedByUserId := some q.userId
    claimedDeviceId := some q.newId
    claimedAt := some q.claimedAt }

def Db.claimSession (q : Claim) (id : ℕ) (d : Db H) : Db H :=
  { d with sessions := d.sessions.map fun p => if p.id = id then q.claimed p else p }

def Db.activeDevice (d : Db H) (userId : ℕ) : Option Device :=
  d.devices.find? fun x => x.userId = userId ∧ x.active

def updateSession (q : Claim) (p : PairingSession H) : Program H A :=
  .write (fun _ => [.session p.id]) (fun _ d => d.claimSession q p.id)
    (.answer (.ok (.device (q.device p))))

def insertDevice (q : Claim) (p : PairingSession H) : Program H A :=
  .stmt (fun _ => [.device q.newId])
    (fun v d => if v.devices.any (·.id = q.newId) then d else d.addDevice (q.device p)) fun v =>
      if v.devices.any (·.id = q.newId) then refuse .conflict else updateSession q p

def requireNoDevice (q : Claim) (p : PairingSession H) : Program H A :=
  .read fun d => if (d.activeDevice q.userId).isSome then refuse .deviceAlreadyPaired
    else insertDevice q p

def lockUser (q : Claim) (p : PairingSession H) : Program H A :=
  .lock (fun _ => [.advisory (hashtext (.user q.userId))]) fun _ => requireNoDevice q p

def claim (q : Claim) : Program H A :=
  .lock (fun d => ((d.claimable hashCode q).map fun p => .session p.id).toList) fun d =>
    match d.claimable hashCode q with
    | none => refuse .notFound
    | some p => lockUser hashtext q p

/-! ### status -/

structure Status where
  sessionId : ℕ
  desktopNonce : String
  now : ℕ
  deriving DecidableEq, Repr

def Db.polled (d : Db H) (q : Status) : Option (PairingSession H) :=
  d.sessions.find? fun p => p.id = q.sessionId ∧ p.desktopNonce = q.desktopNonce ∧
    q.now < p.expiresAt

def status (q : Status) : Program H A :=
  .read fun d =>
    match d.polled q with
    | none => refuse .notFound
    | some p =>
      match p.claimedDeviceId, p.claimedByUserId with
      | some deviceId, some _ => .answer (.ok (.claimed deviceId))
      | _, _ => .answer (.ok (.pending p.expiresAt))

/-! ### revokeDevice -/

structure Revoke where
  userId : ℕ
  actorScope : String
  key : String
  deviceId : ℕ
  deriving DecidableEq, Repr

def Revoke.receipt (q : Revoke) : Receipt := ⟨q.actorScope, q.key, q.deviceId⟩

def Db.revoke (id : ℕ) (d : Db H) : Db H :=
  { d with devices := d.devices.map fun x => if x.id = id then { x with active := false } else x }

def Db.addReceipt (r : Receipt) (d : Db H) : Db H := { d with receipts := d.receipts ++ [r] }

def insertReceipt (q : Revoke) : Program H A :=
  .write (fun _ => []) (fun _ d => d.addReceipt q.receipt) (.answer (.ok .revoked))

def Db.isActive (d : Db H) (id : ℕ) : Bool := d.devices.any fun x => x.id = id ∧ x.active

def updateDevice (q : Revoke) : Program H A :=
  .stmt (fun d => if d.isActive q.deviceId then [.device q.deviceId] else [])
    (fun v d => if v.isActive q.deviceId then d.revoke q.deviceId else d) fun v =>
      if v.isActive q.deviceId then insertReceipt q else refuse .conflict

def lockDevice (q : Revoke) : Program H A :=
  .lock (fun d => if d.devices.any fun x => x.id = q.deviceId ∧ x.userId = q.userId ∧ x.active then
      [.device q.deviceId] else []) fun d =>
    if d.devices.any fun x => x.id = q.deviceId ∧ x.userId = q.userId ∧ x.active then
      updateDevice q
    else refuse .notFound

def findReceipt (q : Revoke) : Program H A :=
  .read fun d =>
    match d.receipts.find? fun r => r.actorScope = q.actorScope ∧ r.idempotencyKey = q.key with
    | some r => if r.deviceId = q.deviceId then .answer (.ok .revoked)
      else refuse .idempotencyConflict
    | none => lockDevice q

def revokeDevice (q : Revoke) : Program H A :=
  .lock (fun _ => [.advisory (hashtext (.receipt q.actorScope q.key))]) fun _ => findReceipt q

/-! ### Requests -/

inductive Request
  | create (q : Create)
  | claim (q : Claim)
  | status (q : Status)
  | revokeDevice (q : Revoke)
  deriving DecidableEq, Repr

def body : Request → Program H A
  | .create q => create hashCode q
  | .claim q => claim hashCode hashtext q
  | .status q => status q
  | .revokeDevice q => revokeDevice hashtext q

end Body

abbrev OpenCall (H A : Type) := Call Request (Db H) (Lock H A) Code Answer

abbrev World (H A : Type) := State Request (Db H) (Lock H A) Code Answer

end MouseKeeper.Server.Pairing
