import MouseKeeper.Machine
import Mathlib.Logic.Function.Basic

/-!
Presence: the keys and the set `presence:known` in Redis, the heartbeats that write them, the
monitor of each server process and what a revoke clears.

A step is one statement to Redis or the database, with what its call does up to the next one.
Keys go when they like, and any known devices may be due. Of a heartbeat, `lastSeenAt` is left
out; a statement that fails does nothing.
-/

namespace MouseKeeper.Server

structure PresenceDevice where
  userId : ℕ
  active : Bool
  deriving DecidableEq

inductive Presence
  | onlineIdle
  | onlineScanning
  | onlineExecuting
  | degraded
  | offline
  deriving DecidableEq

def PRESENCE_TTL_SECONDS : ℕ := 15

/-- An event `presence.updated`. A live device has a heartbeat that was stored and announced, and
no key of it has expired since. -/
structure PresenceUpdated where
  userId : ℕ
  deviceId : ℕ
  presence : Presence
  ttlSeconds : ℕ
  live : Bool
  deriving DecidableEq

/-! ### The calls -/

/-- A heartbeat, which holds a shared lock on its device up to the commit. -/
inductive HeartbeatPhase
  | idle
  | locked (deviceId userId : ℕ) (presence : Presence)
  /-- Its key is the so-many-eth of the device. -/
  | stored (deviceId userId : ℕ) (presence : Presence) (life : ℕ)
  deriving DecidableEq

/-- A pass of `expire`, by the statement it waits for. -/
inductive MonitorPhase
  | idle
  | checking (deviceId : ℕ) (rest : List ℕ)
  | refreshing (deviceId : ℕ) (rest : List ℕ)
  | selecting (deviceId : ℕ) (rest : List ℕ)
  | removing (deviceId : ℕ) (userId : Option ℕ) (rest : List ℕ)
  deriving DecidableEq

/-- The next device of a pass. -/
def MonitorPhase.next : List ℕ → MonitorPhase
  | [] => .idle
  | d :: rest => .checking d rest

/-- A revoke, by what is left of `clearPresence`. -/
inductive RevokePhase
  | idle
  | deleting (deviceId : ℕ)
  | forgetting (deviceId : ℕ)
  | returned (deviceId : ℕ)
  deriving DecidableEq

/-- The store, the calls and the published events, the last one first. Of each device, it is kept
how many of its keys are gone, whether it is live, and whether an `OFFLINE` is owed because its
key expired when it was. -/
structure PresenceState where
  devices : ℕ → Option PresenceDevice
  /-- The heartbeats that hold the lock. -/
  locks : ℕ → List ℕ
  keys : ℕ → Option Presence
  known : ℕ → Bool
  heartbeats : ℕ → HeartbeatPhase
  monitors : ℕ → MonitorPhase
  revokes : ℕ → RevokePhase
  published : List PresenceUpdated
  life : ℕ → ℕ
  live : ℕ → Bool
  owed : ℕ → Bool

inductive PresenceEvent
  | pair (deviceId userId : ℕ)
  | expireKey (deviceId : ℕ)
  | heartbeat (call deviceId : ℕ) (presence : Presence)
  | heartbeatGoesOn (call : ℕ)
  | heartbeatFails (call : ℕ)
  | pass (process : ℕ) (due : List ℕ)
  | passGoesOn (process : ℕ)
  | passFails (process : ℕ)
  | revoke (call deviceId : ℕ)
  | revokeGoesOn (call : ℕ)
  | revokeFails (call : ℕ)

namespace PresenceState

def init : PresenceState where
  devices _ := none
  locks _ := []
  keys _ := none
  known _ := false
  heartbeats _ := .idle
  monitors _ := .idle
  revokes _ := .idle
  published := []
  life _ := 0
  live _ := false
  owed _ := false

variable (s : PresenceState)

def setHeartbeat (h : ℕ) (p : HeartbeatPhase) : PresenceState :=
  { s with heartbeats := Function.update s.heartbeats h p }

def setMonitor (m : ℕ) (p : MonitorPhase) : PresenceState :=
  { s with monitors := Function.update s.monitors m p }

def setRevoke (r : ℕ) (p : RevokePhase) : PresenceState :=
  { s with revokes := Function.update s.revokes r p }

def setKnown (deviceId : ℕ) (b : Bool) : PresenceState :=
  { s with known := Function.update s.known deviceId b }

def setLive (deviceId : ℕ) (b : Bool) : PresenceState :=
  { s with live := Function.update s.live deviceId b }

def setOwed (deviceId : ℕ) (b : Bool) : PresenceState :=
  { s with owed := Function.update s.owed deviceId b }

def storeKey (deviceId : ℕ) (presence : Presence) : PresenceState :=
  { s with keys := Function.update s.keys deviceId (some presence) }

/-- The key is gone, and the device is not live any more. -/
def dropKey (deviceId : ℕ) : PresenceState :=
  { s with
    keys := Function.update s.keys deviceId none
    life := Function.update s.life deviceId (s.life deviceId + 1)
    live := Function.update s.live deviceId false }

def publish (userId deviceId : ℕ) (presence : Presence) (ttlSeconds : ℕ) : PresenceState :=
  { s with published := ⟨userId, deviceId, presence, ttlSeconds, s.live deviceId⟩ :: s.published }

/-- The start of a transaction on a device, and its end. -/
def lock (h deviceId : ℕ) : PresenceState :=
  { s with locks := Function.update s.locks deviceId (h :: s.locks deviceId) }

def unlock (h deviceId : ℕ) : PresenceState :=
  { s with locks := Function.update s.locks deviceId ((s.locks deviceId).erase h) }.setHeartbeat
    h .idle

section

variable {s} {d e h j r : ℕ}

lemma heartbeats_setHeartbeat {p : HeartbeatPhase} : (s.setHeartbeat h p).heartbeats h = p :=
  Function.update_self ..

lemma heartbeats_setHeartbeat_of_ne {p : HeartbeatPhase} (hne : j ≠ h) :
    (s.setHeartbeat h p).heartbeats j = s.heartbeats j :=
  Function.update_of_ne hne ..

lemma heartbeats_unlock : (s.unlock h d).heartbeats h = .idle := Function.update_self ..

lemma heartbeats_unlock_of_ne (hne : j ≠ h) : (s.unlock h d).heartbeats j = s.heartbeats j :=
  Function.update_of_ne hne ..

lemma revokes_setRevoke {p : RevokePhase} : (s.setRevoke r p).revokes r = p :=
  Function.update_self ..

lemma revokes_setRevoke_of_ne {p : RevokePhase} (hne : j ≠ r) :
    (s.setRevoke r p).revokes j = s.revokes j :=
  Function.update_of_ne hne ..

lemma known_setKnown {b : Bool} : (s.setKnown d b).known d = b := Function.update_self ..

lemma known_setKnown_of_ne {b : Bool} (hne : e ≠ d) : (s.setKnown d b).known e = s.known e :=
  Function.update_of_ne hne ..

lemma live_setLive {b : Bool} : (s.setLive d b).live d = b := Function.update_self ..

lemma live_setLive_of_ne {b : Bool} (hne : e ≠ d) : (s.setLive d b).live e = s.live e :=
  Function.update_of_ne hne ..

lemma owed_setOwed {b : Bool} : (s.setOwed d b).owed d = b := Function.update_self ..

lemma owed_setOwed_of_ne {b : Bool} (hne : e ≠ d) : (s.setOwed d b).owed e = s.owed e :=
  Function.update_of_ne hne ..

lemma keys_storeKey {p : Presence} : (s.storeKey d p).keys d = some p := Function.update_self ..

lemma keys_storeKey_of_ne {p : Presence} (hne : e ≠ d) : (s.storeKey d p).keys e = s.keys e :=
  Function.update_of_ne hne ..

lemma locks_lock : (s.lock h d).locks d = h :: s.locks d := Function.update_self ..

lemma locks_lock_of_ne (hne : e ≠ d) : (s.lock h d).locks e = s.locks e :=
  Function.update_of_ne hne ..

lemma locks_unlock : (s.unlock h d).locks d = (s.locks d).erase h := Function.update_self ..

lemma locks_unlock_of_ne (hne : e ≠ d) : (s.unlock h d).locks e = s.locks e :=
  Function.update_of_ne hne ..

lemma keys_dropKey : (s.dropKey d).keys d = none := Function.update_self ..

lemma keys_dropKey_of_ne (hne : e ≠ d) : (s.dropKey d).keys e = s.keys e :=
  Function.update_of_ne hne ..

lemma life_dropKey : (s.dropKey d).life d = s.life d + 1 := Function.update_self ..

lemma live_dropKey : (s.dropKey d).live d = false := Function.update_self ..

end

/-! ### Steps -/

/-- A key that is there expires. -/
def expireKey (deviceId : ℕ) : Option PresenceState :=
  if (s.keys deviceId).isSome then
    some ((s.dropKey deviceId).setOwed deviceId (s.owed deviceId || s.live deviceId))
  else none

def heartbeat (h deviceId : ℕ) (presence : Presence) : Option PresenceState :=
  match s.heartbeats h, s.devices deviceId with
  | .idle, some device =>
    if device.active ∧ presence ≠ .offline then
      some ((s.lock h deviceId).setHeartbeat h (.locked deviceId device.userId presence))
    else none
  | _, _ => none

/-- `MULTI` of `SET` and `ZADD`; then the commit, and the event after it. -/
def heartbeatGoesOn (h : ℕ) : Option PresenceState :=
  match s.heartbeats h with
  | .idle => none
  | .locked d userId presence =>
    some (((s.setKnown d true).storeKey d presence).setHeartbeat h
      (.stored d userId presence (s.life d)))
  | .stored d userId presence life =>
    some (((s.publish userId d presence PRESENCE_TTL_SECONDS).setLive d
      (s.live d || life = s.life d)).unlock h d)

def heartbeatFails (h : ℕ) : Option PresenceState :=
  match s.heartbeats h with
  | .idle => none
  | .locked d _ _ | .stored d _ _ _ => some (s.unlock h d)

/-- `ZRANGEBYSCORE`. -/
def pass (m : ℕ) (due : List ℕ) : Option PresenceState :=
  match s.monitors m with
  | .idle => if due.all s.known then some (s.setMonitor m (.next due)) else none
  | _ => none

def passGoesOn (m : ℕ) : Option PresenceState :=
  match s.monitors m with
  | .idle => none
  | .checking d rest =>
    some (s.setMonitor m (if (s.keys d).isSome then .refreshing d rest else .selecting d rest))
  | .refreshing d rest => some ((s.setKnown d true).setMonitor m (.next rest))
  | .selecting d rest =>
    some (s.setMonitor m (.removing d (((s.devices d).filter (·.active)).map (·.userId)) rest))
  | .removing d none rest => some ((s.setKnown d false).setMonitor m (.next rest))
  | .removing d (some userId) rest =>
    some ((((s.publish userId d .offline 0).setOwed d false).setKnown d false).setMonitor m
      (.next rest))

def passFails (m : ℕ) : Option PresenceState :=
  match s.monitors m with
  | .idle => none
  | _ => some (s.setMonitor m .idle)

/-- The transaction of a revoke, or the answer that its receipt has. -/
def revoke (r deviceId : ℕ) : Option PresenceState :=
  match s.revokes r, s.devices deviceId with
  | .idle, some device =>
    if device.active then
      if s.locks deviceId = [] then
        some ({ s with
          devices := Function.update s.devices deviceId
            (some { device with active := false }) }.setRevoke r (.deleting deviceId))
      else none
    else some (s.setRevoke r (.deleting deviceId))
  | _, _ => none

def revokeGoesOn (r : ℕ) : Option PresenceState :=
  match s.revokes r with
  | .deleting d =>
    some ((if (s.keys d).isSome then s.dropKey d else s).setRevoke r (.forgetting d))
  | .forgetting d => some ((s.setKnown d false).setRevoke r (.returned d))
  | .idle | .returned _ => none

/-- `clearPresence` catches what fails. -/
def revokeFails (r : ℕ) : Option PresenceState :=
  match s.revokes r with
  | .deleting d | .forgetting d => some (s.setRevoke r (.returned d))
  | .idle | .returned _ => none

def pair (deviceId userId : ℕ) : Option PresenceState :=
  match s.devices deviceId with
  | some _ => none
  | none => some { s with devices := Function.update s.devices deviceId (some ⟨userId, true⟩) }

def step : PresenceEvent → Option PresenceState
  | .pair d userId => s.pair d userId
  | .expireKey d => s.expireKey d
  | .heartbeat h d presence => s.heartbeat h d presence
  | .heartbeatGoesOn h => s.heartbeatGoesOn h
  | .heartbeatFails h => s.heartbeatFails h
  | .pass m due => s.pass m due
  | .passGoesOn m => s.passGoesOn m
  | .passFails m => s.passFails m
  | .revoke r d => s.revoke r d
  | .revokeGoesOn r => s.revokeGoesOn r
  | .revokeFails r => s.revokeFails r

end PresenceState

end MouseKeeper.Server
