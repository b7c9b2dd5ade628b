import MouseKeeper.Alone
import MouseKeeper.Storage.SmartCache

/-!
The statements and the requests on the smart cache, served one after the other.
-/

namespace MouseKeeper.Storage

open MouseKeeper.ReadCommitted

variable {α R : Type} {d : Db}

@[simp] lemma eval_clock (next : ℕ → Program R) : (clock next).eval d = (next d.now).eval d := rfl

@[simp] lemma eval_select (row : Db → Option α) (next : Option α → Program R) :
    (select row next).eval d = (next (row d)).eval d := rfl

@[simp] lemma eval_selectFor (row : Db → Option α) (locks : α → List Lock)
    (next : Option α → Program R) :
    (selectFor row locks next).eval d = (next (row d)).eval d := rfl

namespace Table

variable (T : Table α)

@[simp] lemma eval_update (cond : α → Bool) (set : α → α) (next : List α → Program R) :
    (T.update cond set next).eval d = (next ((T.matching cond d).map set)).eval
      (T.put (setRows T.id (T.ids cond d) set (T.rows d)) d) := rfl

lemma eval_insert (conflicts : α → Bool) (row : α) (keys : List Lock) (next : Bool → Program R) :
    (T.insert conflicts row keys next).eval d =
      if (T.rows d).any conflicts then (next false).eval d
      else (next true).eval (T.put (T.rows d ++ [row]) d) := by
  cases h : (T.rows d).any conflicts with
  | true =>
    rw [insert, Txn.eval, h]
    rfl
  | false =>
    rw [insert, Txn.eval, h]
    rfl

lemma eval_upsert (conflicts : α → Bool) (row : α) (set : α → α) (keys : List Lock)
    (next : α → Program R) :
    (T.upsert conflicts row set keys next).eval d =
      match (T.rows d).find? conflicts with
      | some x => (next (set x)).eval
          (T.put (setRows T.id (T.ids conflicts d) set (T.rows d)) d)
      | none => (next row).eval (T.put (T.rows d ++ [row]) d) := by
  rw [upsert, Txn.eval]
  cases h : (T.rows d).find? conflicts with
  | some x =>
    have hany : (T.rows d).any conflicts = true :=
      List.any_eq_true.mpr ⟨x, List.mem_of_find?_eq_some h, List.find?_some h⟩
    rw [if_pos hany]
    rfl
  | none =>
    have hany : (T.rows d).any conflicts = false := by
      rw [List.any_eq_false]
      exact fun x hx => by simpa using List.find?_eq_none.mp h x hx
    rw [hany]
    rfl

end Table

/-- What holds however the connection is found holds. -/
lemma lockConnection_cases {P : Except Code R × Db → Prop} {b : Backend}
    {userId deviceId roomId : ℕ} {noDevice noRoom next : Program R} (h₁ : P (noDevice.eval d))
    (h₂ : P (noRoom.eval d)) (h₃ : P (next.eval d)) :
    P ((lockConnection b userId deviceId roomId noDevice noRoom next).eval d) := by
  rw [lockConnection, eval_selectFor]
  cases d.device userId deviceId with
  | none => exact h₁
  | some _ =>
    dsimp only
    rw [eval_selectFor]
    cases d.deviceRoom userId deviceId roomId with
    | none => exact h₂
    | some _ => exact h₃

/-- A connection that is there is locked. -/
lemma eval_lockConnection {b : Backend} {userId deviceId roomId : ℕ}
    {noDevice noRoom next : Program R} (hdevice : (d.device userId deviceId).isSome)
    (hroom : (d.deviceRoom userId deviceId roomId).isSome) :
    (lockConnection b userId deviceId roomId noDevice noRoom next).eval d = next.eval d := by
  obtain ⟨v, hv⟩ := Option.isSome_iff_exists.mp hdevice
  obtain ⟨r, hr⟩ := Option.isSome_iff_exists.mp hroom
  rw [lockConnection, eval_selectFor, hv]
  dsimp only
  rw [eval_selectFor, hr]

namespace SmartCache

/-- Something that is done with the tables: a request of a user, or time that passes. -/
inductive Work
  | request (b : Backend) (q : Request)
  | tick (now : ℕ)

variable (env : Environment)

def Work.serve (d : Db) : Work → Db
  | .request b q => (body env b q).served d
  | .tick now => { d with now }

/-- The tables after works one after the other. -/
def history (d : Db) (works : List Work) : Db := works.foldl (Work.serve env) d

/-! ### Examples -/

def sampleEnvironment : Environment := ⟨true, true, 1000, 1000⟩

def sampleBackend : Backend := ⟨1, ⟨0, Nat.one_pos⟩⟩

/-- A room on a device, with a policy. -/
def sampleTables : Db where
  now := 0
  devices := [⟨9, 1, true⟩]
  rooms := [⟨3, 1, 9, true⟩]
  transfers := []
  browses := []
  policies := [⟨3, true, 100, 50, [], []⟩]
  batches := []
  reservations := []
  files := []
  objectDeletionJobs := []
  cacheDeletionJobs := []
  cacheReservationDeletionJobs := []
  receipts := []

end SmartCache

end MouseKeeper.Storage
