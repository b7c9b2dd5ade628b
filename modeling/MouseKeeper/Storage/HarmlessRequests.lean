import MouseKeeper.Storage.Browses
import MouseKeeper.Storage.Lifecycle
import MouseKeeper.Storage.RoomLocks
import MouseKeeper.Storage.SmartCache

/-!
The requests that make nothing live.

Only `uploadTarget` among those that change a live work takes no lock of its room, and it finds its
transfer live already.
-/

namespace MouseKeeper.Storage.RemovedRooms

open MouseKeeper.ReadCommitted
open MouseKeeper.Server (Device Room)

variable {n : ℕ}

section Transfers

variable {b : Backend} {userId transferId : ℕ} {deviceId : Option ℕ}

lemma harmless_owned {next : Transfer → Transfers.Program} (h : ∀ t, Harmless (next t)) :
    Harmless (Transfers.owned userId transferId deviceId next) :=
  harmless_select fun
    | none => True.intro
    | some t => h t

lemma harmless_lockOwned {next : Transfer → Transfers.Program} (h : ∀ t, Harmless (next t)) :
    Harmless (Transfers.lockOwned b userId transferId deviceId next) :=
  harmless_select fun
    | none => True.intro
    | some _ => harmless_connection True.intro True.intro <| harmless_selectFor fun
      | none => True.intro
      | some t => h t

lemma harmless_deleteObject {t : Transfer} {next : Transfers.Program} (h : Harmless next) :
    Harmless (Transfers.deleteObject t next) :=
  harmless_clock fun _ => harmless_modify (fun _ => rfl) (fun _ => rfl) h

/-- A change that takes the transfer to a status of an end. -/
lemma harmless_end {cond : Transfer → Bool} {set : Transfer → Transfer}
    {next : List Transfer → Transfers.Program}
    (hid : ∀ t, (set t).id = t.id) (hroom : ∀ t, (set t).roomId = t.roomId)
    (hdevice : ∀ t, (set t).desktopDeviceId = t.desktopDeviceId)
    (hend : ∀ t, Lifecycle.next (set t).status = [])
    (h : ∀ rows, Harmless (next rows)) : Harmless (transfers.update cond set next) := by
  refine harmless_update transferWorks (fun t => ?_) (fun t => ?_) (fun _ h => h)
    (fun t _ hl => ?_) h
  · exact congrArg Lock.transfer (hid t)
  · simp only [transferWorks, Work.place, hroom, hdevice]
  · have he := hend t
    simp only [transferWorks, Work.live, decide_eq_true_eq, List.mem_cons, List.not_mem_nil,
      or_false] at hl
    rcases hl with hl | hl | hl <;> rw [hl] at he <;> cases he

lemma harmless_uploadTarget (env : Transfers.Environment) (q : Transfers.UploadTarget) :
    Harmless (Transfers.uploadTarget env q) := by
  rw [Transfers.uploadTarget]
  split
  · exact True.intro
  refine harmless_owned fun t => harmless_clock fun now => ?_
  split
  · exact True.intro
  refine harmless_clock fun _ => harmless_clock fun _ => harmless_update transferWorks
    (fun _ => rfl) (fun _ => rfl) (fun _ h => h) (fun t hc _ => ?_) fun rows => ?_
  · -- it is requested, and so live already
    simp only [Bool.and_eq_true, decide_eq_true_eq] at hc
    simp [transferWorks, Work.live, hc.1.2]
  · cases rows with
    | nil => exact True.intro
    | cons _ _ => exact True.intro

lemma harmless_completeTransfer (q : Transfers.Complete) : Harmless (Transfers.complete b q) := by
  refine harmless_select fun existing => ?_
  cases existing with
  | some existing =>
    dsimp only
    split
    · exact True.intro
    · exact True.intro
  | none =>
    refine harmless_owned fun t => ?_
    split
    · exact True.intro
    split
    · exact True.intro
    refine harmless_lockOwned fun current => ?_
    split
    · exact True.intro
    split
    · exact True.intro
    refine harmless_lock fun v => ?_
    split
    · exact True.intro
    refine harmless_update transferWorks (fun _ => rfl) (fun _ => rfl) (fun _ h => h)
      (fun t hc _ => ?_) fun rows => ?_
    · simp only [Bool.and_eq_true, decide_eq_true_eq] at hc
      simp [transferWorks, Work.live, hc.2]
    · cases rows with
      | nil => exact True.intro
      | cons _ _ => exact True.intro

lemma harmless_failTransfer (q : Transfers.Fail) : Harmless (Transfers.fail b q) := by
  refine harmless_lockOwned fun t => ?_
  split
  · split
    · exact True.intro
    · exact True.intro
  split
  · exact True.intro
  refine harmless_clock fun now => harmless_end (fun _ => rfl) (fun _ => rfl) (fun _ => rfl)
    (fun _ => rfl) fun rows => ?_
  cases rows with
  | nil =>
    refine harmless_lockOwned fun current => ?_
    split
    · exact True.intro
    · exact True.intro
  | cons _ _ => exact harmless_deleteObject True.intro

lemma harmless_ack (q : Transfers.Ack) : Harmless (Transfers.ack b q) := by
  refine harmless_lockOwned fun t => ?_
  split
  · exact True.intro
  split
  · exact True.intro
  refine harmless_clock fun now => harmless_end (fun _ => rfl) (fun _ => rfl) (fun _ => rfl)
    (fun _ => rfl) fun
  | [] => True.intro
  | _ :: _ => harmless_deleteObject True.intro

lemma harmless_cancelTransfer (q : Transfers.Cancel) : Harmless (Transfers.cancel b q) := by
  refine harmless_lockOwned fun t => ?_
  rw [Transfers.cancelLocked]
  split
  · exact True.intro
  split
  · exact True.intro
  refine harmless_clock fun now => harmless_end (fun _ => rfl) (fun _ => rfl) (fun _ => rfl)
    (fun _ => rfl) fun rows => ?_
  cases rows with
  | nil =>
    refine harmless_lockOwned fun current => ?_
    split
    · exact True.intro
    · exact True.intro
  | cons _ _ => exact harmless_deleteObject True.intro

lemma harmless_expireTransfer (transferId : ℕ) : Harmless (Transfers.expire b transferId) := by
  have hu : Harmless (Transfers.expireTransfer transferId) := by
    refine harmless_clock fun now => harmless_end (fun _ => rfl) (fun _ => rfl) (fun _ => rfl)
      (fun _ => rfl) fun
    | [] => True.intro
    | _ :: _ => harmless_deleteObject True.intro
  refine harmless_clock fun now => harmless_select fun t => ?_
  cases t with
  | none => exact True.intro
  | some t => exact harmless_connection hu hu hu

end Transfers

section Browses

variable {R : Type} {b : Backend} {done : Browse → R}

/-- A change after which the request is not live, or is only where it was requested. -/
lemma harmless_browses {cond : Browse → Bool} {set : Browse → Browse}
    {next : List Browse → Storage.Program R} (hid : ∀ r, (set r).id = r.id)
    (hplace : ∀ r, (Work.browse (set r)).place = (Work.browse r).place)
    (hwaits : ∀ r, (set r).status = .requested → r.status = .requested)
    (hlive : ∀ r, cond r = true → (Work.browse (set r)).live = true → (Work.browse r).live = true)
    (h : ∀ rows, Harmless (next rows)) : Harmless (browses.update cond set next) :=
  harmless_update browseWorks (fun r => congrArg Lock.browse (hid r)) hplace
    (fun r hq => decide_eq_true (hwaits r (of_decide_eq_true hq))) hlive h

lemma harmless_timedOut {cond : Browse → Bool} {next : List Browse → Storage.Program R}
    (h : ∀ rows, Harmless (next rows)) : Harmless (browses.update cond Browses.timedOut next) :=
  harmless_browses (fun _ => rfl) (fun _ => rfl) (fun _ hq => by cases hq)
    (fun _ _ hl => absurd hl (by simp [Work.live, Browses.timedOut])) h

lemma harmless_cleared {cond : Browse → Bool} {next : List Browse → Storage.Program R}
    (h : ∀ rows, Harmless (next rows)) : Harmless (browses.update cond Browses.cleared next) := by
  refine harmless_browses (fun _ => rfl) (fun _ => rfl) (fun _ hq => hq) (fun r _ hl => ?_) h
  simp only [Work.live, Browses.cleared, Option.isSome_none, Bool.or_false] at hl
  have hr : r.status = .requested := of_decide_eq_true hl
  simp [Work.live, hr]

lemma harmless_get (q : Browses.Get) : Harmless (Browses.get b q done) := by
  refine harmless_select fun r => ?_
  cases r with
  | none => exact True.intro
  | some r =>
    refine harmless_clock fun now => ?_
    split
    · exact True.intro
    refine harmless_connection True.intro True.intro ?_
    split
    · refine harmless_cleared fun
      | [] => True.intro
      | _ :: _ => True.intro
    · refine harmless_timedOut fun rows => ?_
      cases rows with
      | nil =>
        refine harmless_select fun current => ?_
        cases current with
        | none => exact True.intro
        | some _ => exact True.intro
      | cons _ _ => exact True.intro

lemma harmless_updateRequested {requestId : ℕ} {set : Browse → Browse}
    (hid : ∀ r, (set r).id = r.id)
    (hplace : ∀ r, (Work.browse (set r)).place = (Work.browse r).place)
    (hend : ∀ r, (set r).status ≠ .requested) :
    Harmless (Browses.updateRequested requestId set done) := by
  refine harmless_browses hid hplace (fun r hq => absurd hq (hend r)) (fun r hc _ => ?_)
    fun rows => ?_
  · simp only [Bool.and_eq_true, decide_eq_true_eq] at hc
    simp [Work.live, hc.2]
  · cases rows with
    | nil => exact True.intro
    | cons _ _ => exact True.intro

lemma harmless_finish (q : Browses.Finish) : Harmless (Browses.finish b q done) := by
  refine harmless_selectFor fun device => ?_
  cases device with
  | none => exact True.intro
  | some device =>
    refine harmless_select fun candidate => ?_
    cases candidate with
    | none => exact True.intro
    | some candidate =>
      refine harmless_selectFor fun room => ?_
      cases room with
      | none => exact True.intro
      | some room =>
        refine harmless_selectFor fun owned => ?_
        cases owned with
        | none => exact True.intro
        | some owned =>
          refine harmless_clock fun now => ?_
          split
          · exact harmless_updateRequested (fun _ => rfl) (fun _ => rfl) fun _ hq => by cases hq
          · refine harmless_updateRequested (fun r => ?_) (fun r => ?_) fun r => ?_
            · rw [Browses.finished]
              split <;> rfl
            · rw [Browses.finished]
              split <;> rfl
            · rw [Browses.finished]
              split
              · exact BrowseStatus.noConfusion
              · exact BrowseStatus.noConfusion

lemma harmless_expireBrowse (requestId : ℕ) (done : R) :
    Harmless (Browses.expire b requestId done) := by
  have hu : Harmless (Browses.expireRequest requestId done) := harmless_timedOut fun _ => True.intro
  refine harmless_clock fun now => harmless_select fun r => ?_
  cases r with
  | none => exact True.intro
  | some r => exact harmless_connection hu hu hu

end Browses

section SmartCache

open SmartCache (enabled assertConfigured)

variable {env : SmartCache.Environment} {b : Backend}

lemma harmless_enabled {next : SmartCache.Program} (h : Harmless next) :
    Harmless (enabled env next) := by
  rw [enabled]
  split
  · exact h
  · exact True.intro

lemma harmless_assertConfigured {next : SmartCache.Program} (h : Harmless next) :
    Harmless (assertConfigured env next) := by
  rw [assertConfigured]
  split
  · exact h
  · exact True.intro

lemma harmless_room {userId roomId : ℕ} {next : Room → SmartCache.Program}
    (h : ∀ r, Harmless (next r)) : Harmless (SmartCache.room userId roomId next) :=
  harmless_select fun
    | none => True.intro
    | some r => h r

/-- Policies are no works. -/
lemma harmless_upsertPolicy {conflicts : Policy → Bool} {row : Policy} {set : Policy → Policy}
    {keys : List Lock} {next : Policy → SmartCache.Program} (h : ∀ p, Harmless (next p)) :
    Harmless (policies.upsert conflicts row set keys next) := by
  refine harmless_aside (fun v d => ?_) (fun v d => ?_) fun v => h _
  · split <;> rfl
  · split <;> rfl

lemma harmless_updatePolicies {cond : Policy → Bool} {set : Policy → Policy}
    {next : List Policy → SmartCache.Program} (h : ∀ rows, Harmless (next rows)) :
    Harmless (policies.update cond set next) :=
  harmless_aside (fun _ _ => rfl) (fun _ _ => rfl) fun _ => h _

lemma harmless_getPolicy (q : SmartCache.GetPolicy) : Harmless (SmartCache.getPolicy env q) := by
  refine harmless_room fun r => ?_
  split
  · exact True.intro
  refine harmless_assertConfigured <| harmless_enabled <| harmless_assertConfigured <|
    harmless_select fun p => ?_
  cases p with
  | none => exact harmless_upsertPolicy fun _ => True.intro
  | some p =>
    dsimp only
    split
    · exact True.intro
    · exact harmless_updatePolicies fun
        | [] => True.intro
        | _ :: _ => True.intro

lemma harmless_updatePolicy (q : SmartCache.UpdatePolicy) :
    Harmless (SmartCache.updatePolicy env b q) := by
  refine harmless_room fun r => ?_
  split
  · exact True.intro
  refine harmless_enabled <| harmless_assertConfigured <| harmless_lock fun _ =>
    harmless_connection True.intro True.intro <| harmless_read fun _ => harmless_clock fun _ =>
      harmless_read fun v => ?_
  split
  · exact True.intro
  · exact harmless_upsertPolicy fun _ => True.intro

/-- A change that keeps what the file is of, and whether it is available unless it ends that. -/
lemma harmless_files {cond : CachedFile → Bool} {set : CachedFile → CachedFile}
    {next : List CachedFile → SmartCache.Program} (hid : ∀ f, (set f).id = f.id)
    (hroom : ∀ f, (set f).roomId = f.roomId)
    (hlive : ∀ f, (set f).availabilityStatus = .available → f.availabilityStatus = .available)
    (h : ∀ rows, Harmless (next rows)) : Harmless (files.update cond set next) := by
  refine harmless_update fileWorks (fun f => congrArg Lock.file (hid f)) (fun f => ?_)
    (fun _ h => h) (fun f _ hl => ?_) h
  · simp only [fileWorks, Work.place, hroom]
  · simp only [fileWorks, Work.live, decide_eq_true_eq] at hl ⊢
    exact hlive f hl

lemma harmless_invalidated {cond : CachedFile → Bool} {next : List CachedFile → SmartCache.Program}
    (h : ∀ rows, Harmless (next rows)) :
    Harmless (files.update cond SmartCache.invalidated next) :=
  harmless_files (fun _ => rfl) (fun _ => rfl) (fun _ hl => by cases hl) h

lemma harmless_deleteFile {f : CachedFile} {next : SmartCache.Program} (h : Harmless next) :
    Harmless (SmartCache.deleteObject f next) :=
  harmless_clock fun _ => harmless_modify (fun _ => rfl) (fun _ => rfl) h

lemma harmless_markStale (q : SmartCache.MarkStale) : Harmless (SmartCache.markStale b q) := by
  refine harmless_room fun r => ?_
  split
  · exact True.intro
  · exact harmless_lock fun _ => harmless_connection True.intro True.intro <|
      harmless_files (fun _ => rfl) (fun _ => rfl) (fun _ hl => hl) fun _ => True.intro

lemma harmless_remove (q : SmartCache.Remove) : Harmless (SmartCache.remove b q) := by
  refine harmless_select fun x => ?_
  match x with
  | none => exact True.intro
  | some (f, r) =>
    dsimp only
    split
    · exact True.intro
    refine harmless_connection True.intro True.intro <| harmless_selectFor fun current => ?_
    cases current with
    | none => exact True.intro
    | some current =>
      dsimp only
      split
      · exact True.intro
      · exact harmless_invalidated fun
          | [] => True.intro
          | _ :: _ => harmless_deleteFile True.intro

lemma harmless_recordAccess (q : SmartCache.RecordAccess) :
    Harmless (SmartCache.recordAccess env b q) := by
  refine harmless_enabled <| harmless_select fun x => ?_
  match x with
  | none => exact True.intro
  | some (f, r) =>
    exact harmless_connection True.intro True.intro <| harmless_clock fun _ =>
      harmless_files (fun _ => rfl) (fun _ => rfl) (fun _ hl => hl) fun
        | [] => True.intro
        | _ :: _ => True.intro

lemma harmless_reservations {cond : Reservation → Bool} {set : Reservation → Reservation}
    {next : List Reservation → SmartCache.Program} (hid : ∀ r, (set r).id = r.id)
    (hplace : ∀ r, (Work.reservation (set r)).place = (Work.reservation r).place)
    (hlive : ∀ r, (set r).status ≠ .reserved) (h : ∀ rows, Harmless (next rows)) :
    Harmless (reservations.update cond set next) := by
  refine harmless_update reservationWorks (fun r => congrArg Lock.reservation (hid r)) hplace
    (fun _ h => h) (fun r _ hl => ?_) h
  simp only [reservationWorks, Work.live, decide_eq_true_eq] at hl
  exact absurd hl (hlive r)

lemma harmless_cancelReservation (q : SmartCache.CancelReservation) :
    Harmless (SmartCache.cancelReservation b q) := by
  refine harmless_select fun r => ?_
  cases r with
  | none => exact True.intro
  | some r =>
    dsimp only
    split
    · exact True.intro
    split
    · exact True.intro
    refine harmless_connection True.intro True.intro <| harmless_selectFor fun current => ?_
    cases current with
    | none => exact True.intro
    | some current =>
      dsimp only
      split
      · exact True.intro
      split
      · exact True.intro
      · exact harmless_reservations (fun _ => rfl) (fun _ => rfl) (fun _ hs => by cases hs) fun
          | [] => True.intro
          | _ :: _ => harmless_modify (fun _ => rfl) (fun _ => rfl) True.intro

lemma harmless_expireReservation (reservationId : ℕ) :
    Harmless (SmartCache.expire b reservationId) := by
  have hu : Harmless (SmartCache.expireReservation reservationId) :=
    harmless_reservations (fun _ => rfl) (fun _ => rfl) (fun _ hs => by cases hs) fun
      | [] => True.intro
      | _ :: _ => harmless_clock fun _ =>
          harmless_modify (fun _ => rfl) (fun _ => rfl) True.intro
  refine harmless_clock fun now => harmless_select fun x => ?_
  match x with
  | none => exact True.intro
  | some (r, userId) => exact harmless_connection hu hu hu

end SmartCache

end MouseKeeper.Storage.RemovedRooms
