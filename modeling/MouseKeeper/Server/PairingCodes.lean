import Mathlib.Data.Fintype.EquivFin
import MouseKeeper.Server.PairingSafety

/-!
The codes that are left for new sessions.

A unique index holds the hash of every code that was ever handed out, and nothing removes a
session. A claim passes by the sessions that are claimed or have expired; a new session does not.
-/

namespace MouseKeeper.Server.Pairing

open MouseKeeper.ReadCommitted

section Defs

variable {H A : Type} [DecidableEq H] (hashCode : PairingCode → H)

/-- The code of the session may still be claimed. -/
structure InUse (now : ℕ) (p : PairingSession H) : Prop where
  unclaimed : p.claimedAt = none
  expiresAt : now < p.expiresAt

/-- A session has the code of the request. -/
def Create.Uses (q : Create) (p : PairingSession H) : Prop :=
  p.pairingCodeHash = hashCode q.code

/-- What the request draws besides its code is new. -/
structure Create.Fresh (d : Db H) (q : Create) : Prop where
  id : ∀ p ∈ d.sessions, p.id ≠ q.newId
  nonce : ∀ p ∈ d.sessions, p.desktopNonce ≠ q.desktopNonce

/-- The request makes a session. -/
def Create.Succeeds (d : Db H) (q : Create) : Prop :=
  (create hashCode q : Program H A).aloneAnswer id d =
    [.created q.newId q.desktopNonce q.code (q.now + lifetime)]

/-- A code that no session in use has makes a session. -/
def Create.Available (A : Type) (d : Db H) (q : Create) : Prop :=
  (∀ p ∈ d.sessions, q.Uses hashCode p → ¬ InUse q.now p) → q.Succeeds (A := A) hashCode d

/-- Pairing is available: whichever code is drawn that no session in use has. -/
def Available (A : Type) (d : Db H) (now : ℕ) : Prop :=
  ∀ q : Create, q.now = now → q.Fresh d → q.Available hashCode A d

end Defs

variable {H A : Type} [DecidableEq H] {hashCode : PairingCode → H} {hashtext : Advisory → A}
  {d d' : Db H} {held : List (Lock H A)} {q : Create} {p : PairingSession H}

/-! ### One hash, one session -/

def OneHash (d : Db H) : Prop := (d.sessions.map (·.pairingCodeHash)).Nodup

lemma Place.oneHash {q : Request} {f : Db H → Db H} {r : Answer}
    (h : Place hashCode hashtext d held q f (.answer (.ok r))) (hd : OneHash d) :
    OneHash (f d) := by
  generalize ht : Txn.answer (.ok r) = t at h
  cases h with
  | created q hf hl =>
    have hnew := hasSession_eq_false.mp hf
    rw [OneHash, Db.addSession, List.map_append]
    refine hd.append (List.nodup_singleton _) fun x hx hx' => ?_
    obtain ⟨y, hy, rfl⟩ := List.mem_map.mp hx
    exact (hnew y hy).2.2 (List.mem_singleton.mp hx')
  | claimed q p hp hn hf =>
    have hsame : ((d.addDevice (q.device p)).claimSession q p.id).sessions.map
        (·.pairingCodeHash) = d.sessions.map (·.pairingCodeHash) := by
      refine (List.map_map ..).trans (List.map_congr_left fun x _ => ?_)
      rw [Function.comp_apply]
      split_ifs <;> rfl
    rw [OneHash, hsame]
    exact hd
  | revoked | pending | token | replayed => exact hd
  | _ => cases ht

/-- **In every run** no two sessions have one hash. -/
lemma oneHash_of_runs {s : World H A}
    (hr : Runs (body hashCode hashtext) always (.quiet .empty) s) : OneHash s.db := by
  have hrules : Rules (body hashCode hashtext) always (Paired hashCode)
    (Assertion hashCode hashtext) := rules
  refine hrules.run_rel (P := fun d d' => OneHash d → OneHash d') (.quiet .empty) (fun _ h => h)
    (fun h h' hd => h' (h hd)) (fun _ h hrest hd => ?_) hr .nil
  rw [Assertion, hrest] at h
  exact h.oneHash hd

/-! ### One request -/

lemma succeeds_iff : q.Succeeds (A := A) hashCode d ↔
    d.hasSession (q.session hashCode) = false := by
  unfold Create.Succeeds create
  by_cases h : d.hasSession (q.session hashCode) = true
  · simp [Txn.aloneAnswer, h, refuse]
  · have hno : d.hasSession (q.session hashCode) = false := by simpa using h
    refine iff_of_true ?_ hno
    simp only [Txn.aloneAnswer, id_eq, hno, Bool.false_eq_true, if_false]
    rfl

/-- **A new session is refused** for any session that ever had its code. -/
lemma succeeds_of_fresh (hq : q.Fresh d) : q.Succeeds (A := A) hashCode d ↔
    ∀ p ∈ d.sessions, ¬ q.Uses hashCode p := by
  rw [succeeds_iff, hasSession_eq_false]
  exact forall₂_congr fun p hp => ⟨fun h => h.2.2, fun h => ⟨hq.id p hp, hq.nonce p hp, h⟩⟩

/-- **A code is available** exactly if no session that is claimed or has expired had it. -/
lemma create_available_iff (hd : OneHash d) (hq : q.Fresh d) : q.Available hashCode A d ↔
    ∀ p ∈ d.sessions, q.Uses hashCode p → InUse q.now p := by
  rw [Create.Available, succeeds_of_fresh hq]
  constructor
  · intro h p hp hu
    by_contra hno
    refine h (fun p' hp' hu' => ?_) p hp hu
    obtain rfl := List.inj_on_of_nodup_map hd hp' hp (hu'.trans hu.symm)
    exact hno
  · intro h hno p hp hu
    exact hno p hp hu (h p hp hu)

omit [DecidableEq H] in
lemma exists_fresh (d : Db H) (code : PairingCode) (now : ℕ) :
    ∃ q : Create, q.now = now ∧ q.code = code ∧ q.Fresh d := by
  obtain ⟨i, hi⟩ := Infinite.exists_notMem_finset (d.sessions.map (·.id)).toFinset
  obtain ⟨nonce, hn⟩ := Infinite.exists_notMem_finset (d.sessions.map (·.desktopNonce)).toFinset
  rw [List.mem_toFinset] at hi hn
  refine ⟨⟨"desktop", .MACOS, none, code, nonce, i, now⟩, rfl, rfl, fun p hp h => hi ?_,
    fun p hp h => hn ?_⟩
  · exact List.mem_map.mpr ⟨p, hp, h⟩
  · exact List.mem_map.mpr ⟨p, hp, h⟩

/-- **Pairing stays available** in a run exactly until a session is claimed or expires; and a code
is lost exactly to the sessions that had it. -/
theorem available_iff {s : World H A}
    (hr : Runs (body hashCode hashtext) always (.quiet .empty) s) (now : ℕ) :
    (Available hashCode A s.db now ↔ ∀ p ∈ s.db.sessions, InUse now p) ∧
    ∀ q : Create, q.Fresh s.db → (q.Available hashCode A s.db ↔
      ∀ p ∈ s.db.sessions, q.Uses hashCode p → InUse q.now p) := by
  have hd := oneHash_of_runs hr
  have hpaired : Paired hashCode s.db := (rules.run (.quiet .empty) hr).db
  refine ⟨⟨fun h p hp => ?_, fun h q hnow hq => ?_⟩, fun q hq => create_available_iff hd hq⟩
  · obtain ⟨q, rfl, hcode, hq⟩ := exists_fresh s.db p.code now
    refine (create_available_iff hd hq).mp (h q rfl hq) p hp ?_
    rw [Create.Uses, hcode]
    exact hpaired.hashed p hp
  · exact (create_available_iff hd hq).mpr fun p hp _ => hnow ▸ h p hp

/-- While the one session is in use, every other code makes one more. -/
theorem available_iff_sample : ∃ s : SampleWorld, s.db.sessions.map (·.code) = [123456] ∧
    Available Fin.val Advisory s.db 1000 := by
  have hrun : ((State.quiet .empty : SampleWorld).schedule sampleBody 1
      (sampleClaimed.take 3)).map (fun s => s.db.sessions) =
      some [⟨5, "nonce", 123456, "mac", .MACOS, none, lifetime, none, none, none, 123456⟩] := by
    decide +kernel
  obtain ⟨s, hs, hsessions⟩ := Option.map_eq_some_iff.mp hrun
  refine ⟨s, by rw [hsessions]; rfl,
    (available_iff (runs_schedule (below_quiet _) hs) 1000).1.mpr fun p hp => ?_⟩
  rw [hsessions, List.mem_singleton] at hp
  exact hp ▸ ⟨rfl, by decide⟩

/-- The code of a session that has been claimed makes no other. -/
theorem not_available : ¬ ∀ s : SampleWorld, Runs sampleBody always (.quiet .empty) s →
    ∀ now, Available Fin.val Advisory s.db now := by
  intro h
  have hrun : ((State.quiet .empty : SampleWorld).schedule sampleBody 1 sampleClaimed).map
      (fun s => s.db.sessions) = some [⟨5, "nonce", 123456, "mac", .MACOS, none, lifetime, some 1,
        some 7, some 1000, 123456⟩] := by decide +kernel
  obtain ⟨s, hs, hsessions⟩ := Option.map_eq_some_iff.mp hrun
  have hr := runs_schedule (below_quiet _) hs
  let q : Create := ⟨"mac", .MACOS, none, 123456, "other", 6, 2000⟩
  have hq : q.Fresh s.db := by
    constructor <;> intro p hp <;> rw [hsessions, List.mem_singleton] at hp <;> subst hp <;> decide
  have huse := (create_available_iff (oneHash_of_runs hr) hq).mp (h s hr 2000 q rfl hq)
  rw [hsessions, List.forall_mem_singleton] at huse
  exact absurd (huse rfl).unclaimed (Option.some_ne_none 1000)

end MouseKeeper.Server.Pairing
