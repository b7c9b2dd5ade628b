import MouseKeeper.Storage.Alone

/-!
A completion of an upload that is repeated.

The repeated request finds its reservation by the key and compares its body with the file as it is
now. Of what the body says of a file, only the score changes later: every access that is recorded
raises it.
-/

namespace MouseKeeper.Storage.SmartCache

open MouseKeeper.ReadCommitted

/-! ### The claim -/

/-- The unique indexes of the reservations and of the files. -/
structure Indexed (d : Db) : Prop where
  reservationIds : (d.reservations.map (·.id)).Nodup
  reservationVersions : (d.reservations.map fun r =>
    (r.roomId, r.sourceRelativePath, r.sourceVersionHash)).Nodup
  fileIds : (d.files.map (·.id)).Nodup
  fileVersions : (d.files.map fun f =>
    (f.roomId, f.sourceRelativePath, f.sourceVersionHash)).Nodup

/-- The request completes its reservation, which has been open, and gets the file. -/
structure Completes (env : Environment) (b : Backend) (q : Complete) (r : Reservation)
    (pf : PublicFile) (d d' : Db) : Prop where
  mem : r ∈ d.reservations
  id : r.id = q.reservationId
  reserved : r.status = .reserved
  unused : r.completionIdempotencyKey = none
  answers : (complete env b q).eval d = (.ok (.file pf), d')

/-- The answers give the same file, up to its availability, its freshness and its last access. -/
def SameFile (pf pf' : PublicFile) : Prop :=
  pf' = { pf with
    availabilityStatus := pf'.availabilityStatus
    freshnessStatus := pf'.freshnessStatus
    lastAccessedAt := pf'.lastAccessedAt }

/-- The request, sent again, is answered with the file and changes nothing. -/
def Repeats (env : Environment) (q : Complete) (pf : PublicFile) (d : Db) : Prop :=
  ∀ b storedSize newId, ∃ pf', SameFile pf pf' ∧
    (complete env b { q with storedSize, newId }).eval d = (.ok (.file pf'), d)

/-- The work records an access of the file. -/
def Work.records (env : Environment) (cachedFileId : ℕ) (d : Db) : Work → Prop
  | .request b (.recordAccess q) =>
    q.cachedFileId = cachedFileId ∧ ((recordAccess env b q).eval d).1.isOk
  | _ => False

/-- None of the works records an access of the file. -/
def Unaccessed (env : Environment) (cachedFileId : ℕ) : Db → List Work → Prop
  | _, [] => True
  | d, w :: works =>
    ¬ w.records env cachedFileId d ∧ Unaccessed env cachedFileId (w.serve env d) works

lemma sameVersion_iff {roomId : ℕ} {path hash : String} {x : Reservation} :
    sameVersion roomId path hash x = true ↔
      x.roomId = roomId ∧ x.sourceRelativePath = path ∧ x.sourceVersionHash = hash := by
  simp [sameVersion, and_assoc]

lemma hasVersion_iff {roomId : ℕ} {path hash : String} {f : CachedFile} :
    hasVersion roomId path hash f = true ↔
      f.roomId = roomId ∧ f.sourceRelativePath = path ∧ f.sourceVersionHash = hash := by
  simp [hasVersion, and_assoc]

/-! ### What is kept -/

/-- The reservation is the one that was completed, or has its key or its version. -/
def Meets (q : Complete) (r x : Reservation) : Prop :=
  x.id = r.id ∨ (x.desktopDeviceId = q.deviceId ∧ x.completionIdempotencyKey = some q.key) ∨
    sameVersion r.roomId r.sourceRelativePath r.sourceVersionHash x = true

/-- The file is the one that was uploaded, after `n` accesses. -/
def FileKept (pf : PublicFile) (n : ℕ) (f : CachedFile) : Prop :=
  publicFile f = { pf with
    usageScore := pf.usageScore + 5 * n
    availabilityStatus := f.availabilityStatus
    freshnessStatus := f.freshnessStatus
    lastAccessedAt := f.lastAccessedAt }

/-- What the request has completed is there, after `n` accesses of the file. -/
structure Completed (q : Complete) (r : Reservation) (pf : PublicFile) (n : ℕ) (d : Db) :
    Prop where
  room : (d.room q.userId r.roomId).isSome
  ids : (d.reservations.map (·.id)).Nodup
  here : completed q r ∈ d.reservations
  reservation : ∀ x ∈ d.reservations, Meets q r x → x = completed q r
  cached : ∃ f ∈ d.files, f.id = pf.id
  file : ∀ f ∈ d.files, f.id = pf.id ∨
    hasVersion r.roomId r.sourceRelativePath r.sourceVersionHash f = true → FileKept pf n f

/-- The answer is the upload of the request for the reservation. -/
structure Uploaded (q : Complete) (r : Reservation) (pf : PublicFile) : Prop where
  roomId : pf.roomId = r.roomId
  path : pf.sourceRelativePath = r.sourceRelativePath
  hash : pf.sourceVersionHash = r.sourceVersionHash
  size : pf.sizeBytes = q.sizeBytes
  sha256 : pf.sha256 = q.sha256
  score : pf.usageScore = q.usageScore
  pin : pf.manualPin = q.manualPin
  metadata : pf.encryptionMetadata = q.encryptionMetadata

variable {env : Environment} {b : Backend} {q : Complete} {r : Reservation} {pf : PublicFile}
  {n : ℕ} {d d' : Db}

lemma FileKept.id {f : CachedFile} (h : FileKept pf n f) : f.id = pf.id :=
  congrArg PublicFile.id h

lemma FileKept.hasVersion (hu : Uploaded q r pf) {f : CachedFile} (h : FileKept pf n f) :
    hasVersion r.roomId r.sourceRelativePath r.sourceVersionHash f = true := by
  have h₁ : f.roomId = pf.roomId := congrArg PublicFile.roomId h
  have h₂ : f.sourceRelativePath = pf.sourceRelativePath :=
    congrArg PublicFile.sourceRelativePath h
  have h₃ : f.sourceVersionHash = pf.sourceVersionHash := congrArg PublicFile.sourceVersionHash h
  simp [SmartCache.hasVersion, h₁, h₂, h₃, hu.roomId, hu.path, hu.hash]

/-- The body of the request is that of the file as long as no access is recorded. -/
lemma FileKept.isUpload (hu : Uploaded q r pf) {f : CachedFile} (h : FileKept pf n f) :
    isUpload q f = true ↔ n = 0 := by
  have h₁ : f.sizeBytes = pf.sizeBytes := congrArg PublicFile.sizeBytes h
  have h₂ : f.sha256 = pf.sha256 := congrArg PublicFile.sha256 h
  have h₃ : f.usageScore = pf.usageScore + 5 * n := congrArg PublicFile.usageScore h
  have h₄ : f.manualPin = pf.manualPin := congrArg PublicFile.manualPin h
  have h₅ : f.encryptionMetadata = pf.encryptionMetadata :=
    congrArg PublicFile.encryptionMetadata h
  simp only [SmartCache.isUpload, h₁, h₂, h₃, h₄, h₅, hu.size, hu.sha256, hu.score, hu.pin,
    hu.metadata, decide_true, Bool.true_and, Bool.and_true, decide_eq_true_eq]
  omega

lemma FileKept.sameFile {f : CachedFile} (h : FileKept pf 0 f) : SameFile pf (publicFile f) := by
  rw [FileKept] at h
  rw [SameFile]
  simpa [publicFile] using h

/-! ### The repeated request -/

lemma find?_of_unique {α : Type} {p : α → Bool} {l : List α} {x : α} (hx : x ∈ l)
    (hp : p x = true) (hu : ∀ y ∈ l, p y = true → y = x) : l.find? p = some x := by
  obtain ⟨y, hy⟩ := Option.isSome_iff_exists.mp (List.find?_isSome.mpr ⟨x, hx, hp⟩)
  rw [hy, hu y (List.mem_of_find?_eq_some hy) (List.find?_some hy)]

lemma eval_complete_repeated (h : Completed q r pf n d) (hid : r.id = q.reservationId)
    (hdevice : r.desktopDeviceId = q.deviceId) (henv : env.smartCacheEnabled = true) :
    (complete env b q).eval d = (answerUpload q (fileOf (completed q r) d)).eval d := by
  have hfind : ownReservation q.userId q.deviceId
      (fun r => r.completionIdempotencyKey = some q.key) d = some (completed q r) := by
    refine find?_of_unique h.here ?_ fun x hx hcond => ?_
    · simp [completed, hdevice, h.room]
    · simp only [Bool.and_eq_true, decide_eq_true_eq] at hcond
      exact h.reservation x hx (.inr (.inl ⟨hcond.1.2, hcond.1.1⟩))
  rw [complete, enabled, if_pos henv, eval_select, hfind]
  dsimp only
  rw [if_neg (show ¬ (completed q r).id ≠ q.reservationId from not_not.mpr hid), eval_select]

lemma fileOf_completed (h : Completed q r pf n d) (hu : Uploaded q r pf) :
    ∃ f, fileOf (completed q r) d = some f ∧ FileKept pf n f := by
  obtain ⟨f, hf, hfid⟩ := h.cached
  obtain ⟨x, hx⟩ := Option.isSome_iff_exists.mp (List.find?_isSome.mpr
    ⟨f, hf, (h.file f hf (.inl hfid)).hasVersion hu⟩)
  exact ⟨x, hx, h.file x (List.mem_of_find?_eq_some hx) (.inr (List.find?_some hx))⟩

/-- The request is answered again if and only if no access of the file has been recorded. -/
lemma repeats_iff (h : Completed q r pf n d) (hu : Uploaded q r pf) (hid : r.id = q.reservationId)
    (hdevice : r.desktopDeviceId = q.deviceId) (henv : env.smartCacheEnabled = true) :
    Repeats env q pf d ↔ n = 0 := by
  obtain ⟨f, hf, hkept⟩ := fileOf_completed h hu
  have heval : ∀ b storedSize newId, (complete env b { q with storedSize, newId }).eval d =
      (if isUpload q f then answer (.file (publicFile f))
        else refuse .idempotencyConflict).eval d := by
    intro b storedSize newId
    have hrep : Completed { q with storedSize, newId } r pf n d :=
      ⟨h.room, h.ids, h.here, h.reservation, h.cached, h.file⟩
    rw [eval_complete_repeated hrep hid hdevice henv]
    exact congrArg (fun x => (answerUpload q x).eval d) hf
  constructor
  · intro hrep
    obtain ⟨pf', -, he⟩ := hrep ⟨1, 0⟩ none 0
    rw [heval] at he
    by_contra hn
    rw [if_neg fun hup => hn ((hkept.isUpload hu).mp hup)] at he
    cases congrArg Prod.fst he
  · rintro rfl b storedSize newId
    refine ⟨publicFile f, hkept.sameFile, ?_⟩
    rw [heval, if_pos ((hkept.isUpload hu).mpr rfl)]
    rfl


/-! ### What the tables keep -/

/-- Other tables do not matter. -/
lemma Completed.congr (h : Completed q r pf n d) (hrooms : d'.rooms = d.rooms)
    (hreservations : d'.reservations = d.reservations) (hfiles : d'.files = d.files) :
    Completed q r pf n d' where
  room := by
    rw [Db.room, hrooms]
    exact h.room
  ids := hreservations ▸ h.ids
  here := hreservations ▸ h.here
  reservation := hreservations ▸ h.reservation
  cached := hfiles ▸ h.cached
  file := hfiles ▸ h.file

lemma Completed.setReservations (h : Completed q r pf n d) {ids : List ℕ}
    (set : Reservation → Reservation) (hid : ∀ x, (set x).id = x.id) (hnot : r.id ∉ ids)
    (hmeets : ∀ x ∈ d.reservations, x.id ∈ ids → ¬ Meets q r (set x)) :
    Completed q r pf n { d with
      reservations := setRows Reservation.id ids set d.reservations } where
  room := h.room
  ids := by
    rw [map_id_setRows fun x _ _ => hid x]
    exact h.ids
  here := mem_setRows_of_not_mem h.here hnot
  reservation := by
    intro y hy hm
    obtain ⟨x, hx, rfl⟩ := mem_setRows.mp hy
    split at hm
    · next hxi => exact absurd hm (hmeets x hx hxi)
    · next hxi =>
      rw [if_neg hxi]
      exact h.reservation x hx hm
  cached := h.cached
  file := h.file

/-- Reservations that are open end. -/
lemma Completed.endReservations (h : Completed q r pf n d) (cond : Reservation → Bool)
    (set : Reservation → Reservation) (hcond : ∀ x, cond x = true → x.status = .reserved)
    (hid : ∀ x, (set x).id = x.id) (hmeets : ∀ x, Meets q r (set x) → Meets q r x) :
    Completed q r pf n { d with
      reservations := setRows Reservation.id (reservations.ids cond d) set d.reservations } := by
  have hnot : r.id ∉ reservations.ids cond d := by
    intro hmem
    obtain ⟨y, hy, hyid⟩ := List.mem_map.mp hmem
    obtain ⟨hy, hc⟩ := List.mem_filter.mp hy
    have hstatus := hcond y hc
    rw [h.reservation y hy (.inl hyid)] at hstatus
    cases hstatus
  refine h.setReservations set hid hnot fun x hx hxi hm => hnot ?_
  rw [h.reservation x hx (hmeets x hm)] at hxi
  exact hxi

lemma Completed.addReservation (h : Completed q r pf n d) {row : Reservation}
    (hid : ∀ x ∈ d.reservations, x.id ≠ row.id) (hmeets : ¬ Meets q r row) :
    Completed q r pf n { d with reservations := d.reservations ++ [row] } where
  room := h.room
  ids := by
    rw [List.map_append, List.map_singleton]
    refine h.ids.append (List.nodup_singleton _) fun i hi hrow => ?_
    obtain ⟨x, hx, rfl⟩ := List.mem_map.mp hi
    exact hid x hx (List.mem_singleton.mp hrow)
  here := List.mem_append_left _ h.here
  reservation := by
    intro x hx hm
    rcases List.mem_append.mp hx with hx | hx
    · exact h.reservation x hx hm
    · rw [List.mem_singleton.mp hx] at hm
      exact absurd hm hmeets
  cached := h.cached
  file := h.file

lemma Completed.setFiles (h : Completed q r pf n d) {m : ℕ} {ids : List ℕ}
    {set : CachedFile → CachedFile} (hid : ∀ f, (set f).id = f.id)
    (hversion : ∀ f, f.id ∈ ids →
      hasVersion r.roomId r.sourceRelativePath r.sourceVersionHash (set f) = true →
        hasVersion r.roomId r.sourceRelativePath r.sourceVersionHash f = true)
    (hset : ∀ f, FileKept pf n f → FileKept pf m (if f.id ∈ ids then set f else f)) :
    Completed q r pf m { d with files := setRows CachedFile.id ids set d.files } where
  room := h.room
  ids := h.ids
  here := h.here
  reservation := h.reservation
  cached := by
    obtain ⟨f, hf, hfid⟩ := h.cached
    refine ⟨_, mem_setRows.mpr ⟨f, hf, rfl⟩, ?_⟩
    split
    · rw [hid, hfid]
    · exact hfid
  file := by
    intro g hg hm
    obtain ⟨f, hf, rfl⟩ := mem_setRows.mp hg
    refine hset f (h.file f hf ?_)
    split at hm
    · next hi =>
      rw [hid] at hm
      exact hm.imp_right (hversion f hi)
    · exact hm

/-- A change of nothing but the availability and the freshness. -/
lemma FileKept.fade {f f' : CachedFile} (h : FileKept pf n f)
    (he : f' = { f with
      availabilityStatus := f'.availabilityStatus, freshnessStatus := f'.freshnessStatus }) :
    FileKept pf n f' := by
  rw [FileKept] at h ⊢
  rw [he]
  simp only [publicFile, PublicFile.mk.injEq] at h ⊢
  simpa using h

lemma Completed.fadeFiles (h : Completed q r pf n d) (ids : List ℕ)
    (set : CachedFile → CachedFile)
    (hset : ∀ f, set f = { f with
      availabilityStatus := (set f).availabilityStatus
      freshnessStatus := (set f).freshnessStatus }) :
    Completed q r pf n { d with files := setRows CachedFile.id ids set d.files } := by
  refine h.setFiles (fun f => ?_) (fun f _ hv => ?_) fun f hf => ?_
  · rw [hset]
  · rw [hset] at hv
    exact hv
  · split
    · exact hf.fade (hset f)
    · exact hf

lemma Completed.addFile (h : Completed q r pf n d) {f : CachedFile}
    (hid : d.files.any (·.id = f.id) = false)
    (hversion : hasVersion r.roomId r.sourceRelativePath r.sourceVersionHash f = false) :
    Completed q r pf n { d with files := d.files ++ [f] } where
  room := h.room
  ids := h.ids
  here := h.here
  reservation := h.reservation
  cached := by
    obtain ⟨g, hg, hgid⟩ := h.cached
    exact ⟨g, List.mem_append_left _ hg, hgid⟩
  file := by
    intro g hg hm
    rcases List.mem_append.mp hg with hg | hg
    · exact h.file g hg hm
    · rw [List.mem_singleton.mp hg] at hm
      obtain ⟨x, hx, hxid⟩ := h.cached
      rcases hm with hm | hm
      · exact absurd (decide_eq_true (hxid.trans hm.symm)) (List.any_eq_false.mp hid x hx)
      · rw [hversion] at hm
        cases hm

/-! ### Requests in between -/

section Between

variable {next : Program}

lemma kept_answer (h : Completed q r pf n d) (x : Response) :
    Completed q r pf n ((answer x).eval d).2 := h

lemma kept_enabled (h : Completed q r pf n d) (hn : Completed q r pf n (next.eval d).2) :
    Completed q r pf n ((enabled env next).eval d).2 := by
  rw [enabled]
  split
  · exact hn
  · exact h

lemma kept_assertConfigured (h : Completed q r pf n d)
    (hn : Completed q r pf n (next.eval d).2) :
    Completed q r pf n ((assertConfigured env next).eval d).2 := by
  rw [assertConfigured]
  split
  · exact hn
  · exact h

lemma kept_room {userId roomId : ℕ} {next : Server.Room → Program} (h : Completed q r pf n d)
    (hn : ∀ x, Completed q r pf n ((next x).eval d).2) :
    Completed q r pf n ((room userId roomId next).eval d).2 := by
  rw [room, eval_select]
  cases d.room userId roomId with
  | none => exact h
  | some x => exact hn x

lemma kept_connection {userId deviceId roomId : ℕ} {noDevice noRoom : Program}
    (h₁ : Completed q r pf n (noDevice.eval d).2) (h₂ : Completed q r pf n (noRoom.eval d).2)
    (h₃ : Completed q r pf n (next.eval d).2) : Completed q r pf n
      ((lockConnection b userId deviceId roomId noDevice noRoom next).eval d).2 :=
  lockConnection_cases (P := fun x => Completed q r pf n x.2) h₁ h₂ h₃

lemma kept_deleteObject {f : CachedFile} (h : Completed q r pf n d)
    (hn : ∀ d', Completed q r pf n d' → Completed q r pf n (next.eval d').2) :
    Completed q r pf n ((deleteObject f next).eval d).2 :=
  hn _ (h.congr rfl rfl rfl)

lemma kept_ensureAutomaticPolicy {roomId : ℕ} (h : Completed q r pf n d) :
    Completed q r pf n ((ensureAutomaticPolicy env roomId).eval d).2 := by
  refine kept_enabled h (kept_assertConfigured h ?_)
  rw [eval_select]
  cases d.policies.find? (·.roomId = roomId) with
  | some p =>
    dsimp only
    split
    · exact h
    · rw [Table.eval_update]
      split
      · exact h.congr rfl rfl rfl
      · exact h.congr rfl rfl rfl
  | none =>
    dsimp only
    rw [Table.eval_upsert]
    split
    · exact h.congr rfl rfl rfl
    · exact h.congr rfl rfl rfl

lemma kept_getPolicy (g : GetPolicy) (h : Completed q r pf n d) :
    Completed q r pf n ((getPolicy env g).eval d).2 := by
  refine kept_room h fun x => ?_
  split
  · exact h
  · exact kept_assertConfigured h (kept_ensureAutomaticPolicy h)

lemma kept_updatePolicy (u : UpdatePolicy) (h : Completed q r pf n d) :
    Completed q r pf n ((updatePolicy env b u).eval d).2 := by
  refine kept_room h fun x => ?_
  split
  · exact h
  refine kept_enabled h (kept_assertConfigured h (kept_connection h h ?_))
  rw [Txn.eval_read, eval_clock, updateWithin, Txn.eval_read]
  split
  · exact h
  · rw [Table.eval_upsert]
    split
    · exact h.congr rfl rfl rfl
    · exact h.congr rfl rfl rfl

lemma kept_evict {policy : Policy} {c : Candidate} {done : List CachedFile → ℤ → Program}
    (hdone : ∀ l a d, Completed q r pf n d → Completed q r pf n ((done l a).eval d).2)
    (evictable : List CachedFile) (allocated : ℤ) (h : Completed q r pf n d) :
    Completed q r pf n ((evict policy c done evictable allocated).eval d).2 := by
  induction evictable generalizing allocated d with
  | nil => exact hdone [] allocated d h
  | cons f evictable ih =>
    rw [evict]
    split
    · exact hdone _ _ d h
    split
    · exact hdone _ _ d h
    rw [Table.eval_update]
    have hfade := h.fadeFiles
      (files.ids (fun g => g.id = f.id && g.availabilityStatus = .available) d) invalidated
      fun _ => rfl
    split
    · exact ih _ hfade
    · exact kept_deleteObject hfade fun d' hd' => ih _ hd'

lemma kept_reserve {s : Submit} {c : Candidate} {done : Option Reservation → Program}
    (hdone : ∀ x d, Completed q r pf n d → Completed q r pf n ((done x).eval d).2)
    (h : Completed q r pf n d) : Completed q r pf n ((reserve s c done).eval d).2 := by
  rw [reserve, eval_clock, Table.eval_insert]
  split
  · exact hdone none d h
  · next hany =>
    rw [Bool.not_eq_true, List.any_eq_false] at hany
    have hnone : ∀ x ∈ d.reservations, x.id ≠ c.newId ∧
        sameVersion s.roomId c.sourceRelativePath c.sourceVersionHash x = false := by
      intro x hx
      have hx' := hany x hx
      rw [Bool.or_eq_true, not_or, decide_eq_true_eq, Bool.not_eq_true] at hx'
      exact hx'
    refine hdone _ _ (h.addReservation (fun x hx => (hnone x hx).1) ?_)
    rintro (hid | ⟨-, hkey⟩ | hversion)
    · exact (hnone _ h.here).1 hid.symm
    · cases hkey
    · obtain ⟨h₁, h₂, h₃⟩ := sameVersion_iff.mp hversion
      exact absurd (sameVersion_iff.mpr ⟨h₁.symm, h₂.symm, h₃.symm⟩)
        (Bool.eq_false_iff.mp (hnone _ h.here).2)

lemma kept_approve {s : Submit} {policy : Policy} {done : List Reservation → Program}
    (hdone : ∀ x d, Completed q r pf n d → Completed q r pf n ((done x).eval d).2)
    (candidates : List Candidate) (evictable : List CachedFile) (allocated : ℤ)
    (approved : List Reservation) (h : Completed q r pf n d) :
    Completed q r pf n
      ((approve s policy done candidates evictable allocated approved).eval d).2 := by
  induction candidates generalizing evictable allocated approved d with
  | nil => exact hdone approved d h
  | cons c candidates ih =>
    rw [approve]
    split
    · exact ih _ _ _ h
    split
    · exact ih _ _ _ h
    refine kept_evict (fun l a d hd => ?_) evictable allocated h
    split
    · exact ih _ _ _ hd
    · refine kept_reserve (fun x d hd => ?_) hd
      cases x with
      | some row => exact ih _ _ _ hd
      | none => exact ih _ _ _ hd

lemma kept_submit (s : Submit) (h : Completed q r pf n d) :
    Completed q r pf n ((submit env b s).eval d).2 := by
  refine kept_enabled h (kept_assertConfigured h (kept_room h fun x => ?_))
  split
  · exact h
  refine kept_connection h h ?_
  rw [eval_select]
  cases d.batches.find? (hasKey s) with
  | some replay =>
    dsimp only
    split
    · exact h
    · exact h
  | none =>
    dsimp only
    rw [submitBatch, Table.eval_insert]
    split
    · exact h
    · rw [eval_select]
      split
      · exact h.congr rfl rfl rfl
      · rw [Txn.eval_read, eval_clock, submitWithin, Txn.eval_read, Txn.eval_read]
        exact kept_approve (fun _ _ hd => kept_answer hd _) _ _ _ _ (h.congr rfl rfl rfl)

lemma kept_cancelReservation (c : CancelReservation) (h : Completed q r pf n d) :
    Completed q r pf n ((cancelReservation b c).eval d).2 := by
  rw [cancelReservation, eval_select]
  split
  · exact h
  split
  · exact h
  split
  · exact h
  refine kept_connection h h ?_
  rw [eval_selectFor]
  split
  · exact h
  split
  · exact h
  split
  · exact h
  rw [Table.eval_update]
  have hend := h.endReservations (fun s => s.id = c.reservationId && s.status = .reserved) cancelled
    (fun x hx => of_decide_eq_true (Bool.and_eq_true_iff.mp hx).2) (fun _ => rfl) fun _ hm => hm
  split
  · exact hend
  · exact hend.congr rfl rfl rfl

lemma kept_markStale (m : MarkStale) (h : Completed q r pf n d) :
    Completed q r pf n ((markStale b m).eval d).2 := by
  refine kept_room h fun x => ?_
  split
  · exact h
  · exact kept_connection h h (h.fadeFiles _ _ fun _ => rfl)

lemma kept_remove (m : Remove) (h : Completed q r pf n d) :
    Completed q r pf n ((remove b m).eval d).2 := by
  rw [remove, eval_select]
  split
  · exact h
  split
  · exact h
  refine kept_connection h h ?_
  rw [eval_selectFor]
  split
  · exact h
  split
  · exact h
  rw [Table.eval_update]
  have hfade := h.fadeFiles (files.ids (fun g => g.id = m.cachedFileId) d) invalidated
    fun _ => rfl
  split
  · exact hfade
  · exact kept_deleteObject hfade fun _ hd => hd

lemma kept_expireReservation (reservationId : ℕ) (h : Completed q r pf n d) :
    Completed q r pf n ((expireReservation reservationId).eval d).2 := by
  rw [expireReservation, Table.eval_update]
  have hend := h.endReservations (fun s => s.id = reservationId && s.status = .reserved) expired
    (fun x hx => of_decide_eq_true (Bool.and_eq_true_iff.mp hx).2) (fun _ => rfl) fun _ hm => hm
  split
  · exact hend
  · exact hend.congr rfl rfl rfl

lemma kept_expire (reservationId : ℕ) (h : Completed q r pf n d) :
    Completed q r pf n ((expire b reservationId).eval d).2 := by
  have hexpire := kept_expireReservation reservationId h
  rw [expire, eval_clock, eval_select]
  split
  · exact h
  · exact kept_connection hexpire hexpire hexpire

end Between

/-! ### Other completions -/

section Completions

variable {c : Complete} {x : Reservation}

/-- A reservation that is not completed is another one. -/
lemma Completed.other (h : Completed q r pf n d) (hx : x ∈ d.reservations)
    (hs : x.status ≠ .completed) : ¬ Meets q r x := by
  intro hm
  rw [h.reservation x hx hm] at hs
  exact hs rfl

lemma kept_replaceFiles {next : Program}
    (hn : ∀ d', Completed q r pf n d' → d'.reservations = d.reservations →
      Completed q r pf n (next.eval d').2)
    (old : List CachedFile) (h : Completed q r pf n d) :
    Completed q r pf n ((replaceFiles next old).eval d).2 := by
  induction old generalizing d with
  | nil => exact hn d h rfl
  | cons f old ih =>
    rw [replaceFiles, Table.eval_update]
    exact ih (fun d' hd' he => hn d' hd' he) ((h.fadeFiles _ _ fun _ => rfl).congr rfl rfl rfl)

lemma kept_setCompleted {cached : CachedFile} (h : Completed q r pf n d)
    (hdevice : r.desktopDeviceId = q.deviceId) (hx : x ∈ d.reservations)
    (hxid : x.id = c.reservationId) (hxdevice : x.desktopDeviceId = c.deviceId)
    (hm : ¬ Meets q r x) : Completed q r pf n ((setCompleted c cached).eval d).2 := by
  rw [setCompleted, Txn.eval_lock]
  split
  · exact h
  next htaken =>
  have hids : ∀ i, i ∈ reservations.ids (fun s => s.id = c.reservationId) d → i = x.id := by
    intro i hi
    obtain ⟨y, hy, rfl⟩ := List.mem_map.mp hi
    exact (of_decide_eq_true (List.mem_filter.mp hy).2).trans hxid.symm
  refine h.setReservations (completed c) (fun _ => rfl)
    (fun hi => hm (.inl (hids _ hi).symm)) fun y hy hi hmeets => ?_
  have hyx : y = x := eq_of_id_eq h.ids hy hx (hids _ hi)
  subst hyx
  rcases hmeets with hid | ⟨hdev, hkey⟩ | hversion
  · exact hm (.inl hid)
  · -- the key would be taken
    refine htaken (List.any_eq_true.mpr ⟨completed q r, h.here, ?_⟩)
    have hne : r.id ≠ c.reservationId := fun he => hm (.inl (hxid.trans he.symm))
    have hdev' : r.desktopDeviceId = c.deviceId := hdevice.trans (hdev.symm.trans hxdevice)
    have hkey' : q.key = c.key := (Option.some.inj hkey).symm
    simp [completed, hdev', hkey', hne]
  · exact hm (.inr (.inr hversion))

lemma kept_storeFile (h : Completed q r pf n d) (hu : Uploaded q r pf)
    (hdevice : r.desktopDeviceId = q.deviceId) (hx : x ∈ d.reservations)
    (hxid : x.id = c.reservationId) (hxdevice : x.desktopDeviceId = c.deviceId)
    (hm : ¬ Meets q r x) : Completed q r pf n ((storeFile c x).eval d).2 := by
  have hversion : ∀ f : CachedFile,
      hasVersion x.roomId x.sourceRelativePath x.sourceVersionHash f = true →
      hasVersion r.roomId r.sourceRelativePath r.sourceVersionHash f ≠ true := by
    intro f hf hf'
    obtain ⟨h₁, h₂, h₃⟩ := hasVersion_iff.mp hf
    obtain ⟨h₁', h₂', h₃'⟩ := hasVersion_iff.mp hf'
    exact hm (.inr (.inr (sameVersion_iff.mpr
      ⟨h₁.symm.trans h₁', h₂.symm.trans h₂', h₃.symm.trans h₃'⟩)))
  rw [storeFile, Txn.eval_lock]
  split
  · exact h
  next hany =>
  rw [eval_clock, Table.eval_upsert]
  split
  · refine kept_setCompleted (h.setFiles (fun _ => rfl) (fun f _ hv => hv) fun f hf => ?_)
      hdevice hx hxid hxdevice hm
    rw [if_neg]
    · exact hf
    intro hi
    obtain ⟨y, hy, hyid⟩ := List.mem_map.mp hi
    obtain ⟨hy, hyv⟩ := List.mem_filter.mp hy
    have hkept := h.file y hy (.inl (hyid.trans hf.id))
    exact hversion y hyv (hkept.hasVersion hu)
  · refine kept_setCompleted (h.addFile (Bool.not_eq_true _ ▸ hany) ?_) hdevice hx hxid
      hxdevice hm
    rw [Bool.eq_false_iff]
    exact hversion _ (hasVersion_iff.mpr ⟨rfl, rfl, rfl⟩)

lemma kept_complete (c : Complete) (h : Completed q r pf n d) (hu : Uploaded q r pf)
    (hdevice : r.desktopDeviceId = q.deviceId) :
    Completed q r pf n ((complete env b c).eval d).2 := by
  have hanswer : ∀ x, Completed q r pf n ((answerUpload c x).eval d).2 := by
    intro x
    rw [answerUpload.eq_def]
    split
    · split
      · exact h
      · exact h
    · exact h
  refine kept_enabled h ?_
  rw [eval_select]
  split
  · split
    · exact h
    · exact hanswer _
  rw [eval_select]
  split
  · exact h
  next x hx =>
  have hmem := List.mem_of_find?_eq_some hx
  have hcond := List.find?_some hx
  simp only [Bool.and_eq_true, decide_eq_true_eq] at hcond
  rw [eval_clock]
  split
  · exact h
  next hstatus =>
  have hreserved : x.status = .reserved := by
    by_contra hne
    exact hstatus (.inl hne)
  have hm := h.other hmem (by rw [hreserved]; decide)
  split
  · exact h
  refine kept_connection h h ?_
  rw [eval_selectFor]
  split
  · exact h
  rw [completeLocked]
  split
  · split
    · exact h
    · exact hanswer _
  · rw [eval_clock]
    split
    · exact h
    · rw [Txn.eval_read]
      refine kept_replaceFiles (fun d' hd' he => ?_) _ h
      exact kept_storeFile hd' hu hdevice (he ▸ hmem) hcond.1.1 hcond.1.2 hm

/-- An access of the file counts, another one does not. -/
lemma recordAccess_kept (a : RecordAccess) (h : Completed q r pf n d)
    (hok : ((recordAccess env b a).eval d).1.isOk) :
    Completed q r pf (if a.cachedFileId = pf.id then n + 1 else n)
      ((recordAccess env b a).eval d).2 := by
  revert hok
  rw [recordAccess, enabled]
  split
  swap
  · exact fun hok => by cases hok
  rw [eval_select]
  split
  · exact fun hok => by cases hok
  next room _ =>
  refine lockConnection_cases (P := fun x => x.1.isOk →
    Completed q r pf (if a.cachedFileId = pf.id then n + 1 else n) x.2)
    (fun hok => by cases hok) (fun hok => by cases hok) ?_
  rw [eval_clock, Table.eval_update]
  split
  · exact fun hok => by cases hok
  next f rest hrows =>
  intro _
  have hids : ∀ i, i ∈ files.ids (fun f => f.id = a.cachedFileId && isAvailable room.id f) d ↔
      i = a.cachedFileId := by
    intro i
    constructor
    · intro hi
      obtain ⟨y, hy, rfl⟩ := List.mem_map.mp hi
      have hy' := (List.mem_filter.mp hy).2
      rw [Bool.and_eq_true, decide_eq_true_eq] at hy'
      exact hy'.1
    · rintro rfl
      obtain ⟨y, hy, -⟩ := List.mem_map.mp (hrows ▸ List.mem_cons_self : f ∈ _)
      have hy' := (List.mem_filter.mp hy).2
      rw [Bool.and_eq_true, decide_eq_true_eq] at hy'
      exact List.mem_map.mpr ⟨y, hy, hy'.1⟩
  refine h.setFiles (fun _ => rfl) (fun f _ hv => hv) fun f hf => ?_
  simp only [hids, hf.id]
  by_cases he : pf.id = a.cachedFileId
  · rw [if_pos he, if_pos he.symm]
    rw [FileKept] at hf ⊢
    simp only [publicFile, accessed, PublicFile.mk.injEq] at hf ⊢
    simp only [hf, and_self, and_true, true_and]
    push_cast
    omega
  · rw [if_neg he, if_neg (Ne.symm he)]
    exact hf

end Completions

variable (env) in
/-- A work keeps what was completed, and counts if it records an access of the file. -/
lemma Completed.serve (h : Completed q r pf n d) (hu : Uploaded q r pf)
    (hdevice : r.desktopDeviceId = q.deviceId) (w : Work) :
    ∃ m, Completed q r pf (n + m) (w.serve env d) ∧ (m = 0 ↔ ¬ w.records env pf.id d) := by
  cases w with
  | tick now => exact ⟨0, h.congr rfl rfl rfl, iff_of_true rfl id⟩
  | request b x =>
    cases x with
    | getPolicy g => exact ⟨0, Txn.served_of_eval h (kept_getPolicy g h), iff_of_true rfl id⟩
    | updatePolicy u => exact ⟨0, Txn.served_of_eval h (kept_updatePolicy u h), iff_of_true rfl id⟩
    | submit s => exact ⟨0, Txn.served_of_eval h (kept_submit s h), iff_of_true rfl id⟩
    | complete c =>
      exact ⟨0, Txn.served_of_eval h (kept_complete c h hu hdevice), iff_of_true rfl id⟩
    | cancelReservation c =>
      exact ⟨0, Txn.served_of_eval h (kept_cancelReservation c h), iff_of_true rfl id⟩
    | markStale m => exact ⟨0, Txn.served_of_eval h (kept_markStale m h), iff_of_true rfl id⟩
    | remove m => exact ⟨0, Txn.served_of_eval h (kept_remove m h), iff_of_true rfl id⟩
    | expire i => exact ⟨0, Txn.served_of_eval h (kept_expire i h), iff_of_true rfl id⟩
    | recordAccess a =>
      change ∃ m, Completed q r pf (n + m) ((recordAccess env b a).served d) ∧
        (m = 0 ↔ ¬ (a.cachedFileId = pf.id ∧ ((recordAccess env b a).eval d).1.isOk))
      by_cases hok : ((recordAccess env b a).eval d).1.isOk
      · have hkept := recordAccess_kept a h hok
        have hserved : (recordAccess env b a).served d = ((recordAccess env b a).eval d).2 := by
          rw [Txn.served]
          split
          · next he => rw [he]
          · next he =>
            rw [he] at hok
            cases hok
        rw [hserved]
        by_cases hid : a.cachedFileId = pf.id
        · rw [if_pos hid] at hkept
          exact ⟨1, hkept, iff_of_false Nat.one_ne_zero (not_not.mpr ⟨hid, hok⟩)⟩
        · rw [if_neg hid] at hkept
          exact ⟨0, hkept, iff_of_true rfl fun hr => hid hr.1⟩
      · have hserved : (recordAccess env b a).served d = d := by
          rw [Txn.served]
          split
          · next he =>
            rw [he] at hok
            exact absurd rfl hok
          · rfl
        rw [hserved]
        exact ⟨0, h, iff_of_true rfl fun hr => hok hr.2⟩

variable (env) in
/-- **Works in between** keep what was completed, and count the accesses of the file. -/
lemma Completed.history (h : Completed q r pf n d) (hu : Uploaded q r pf)
    (hdevice : r.desktopDeviceId = q.deviceId) (works : List Work) :
    ∃ m, Completed q r pf (n + m) (history env d works) ∧
      (m = 0 ↔ Unaccessed env pf.id d works) := by
  induction works generalizing n d with
  | nil => exact ⟨0, h, iff_of_true rfl trivial⟩
  | cons w works ih =>
    obtain ⟨k, hk, hrecords⟩ := h.serve env hu hdevice w
    obtain ⟨m, hm, hrest⟩ := ih hk
    refine ⟨k + m, by rw [← Nat.add_assoc]; exact hm, ?_⟩
    rw [Nat.add_eq_zero_iff, hrecords, hrest]
    rfl

/-! ### The completion -/

lemma fileKept_self (f : CachedFile) : FileKept (publicFile f) 0 f := by
  simp [FileKept, publicFile]

/-- Two reservations of one version are one. -/
lemma Indexed.reservation_eq (h : Indexed d) {x y : Reservation} (hx : x ∈ d.reservations)
    (hy : y ∈ d.reservations)
    (hv : sameVersion y.roomId y.sourceRelativePath y.sourceVersionHash x = true) : x = y := by
  obtain ⟨h₁, h₂, h₃⟩ := sameVersion_iff.mp hv
  exact List.inj_on_of_nodup_map h.reservationVersions hx hy (by rw [h₁, h₂, h₃])

/-- Two files of one version are one. -/
lemma Indexed.file_eq (h : Indexed d) {f g : CachedFile} (hf : f ∈ d.files) (hg : g ∈ d.files)
    {roomId : ℕ} {path hash : String} (hfv : hasVersion roomId path hash f = true)
    (hgv : hasVersion roomId path hash g = true) : f = g := by
  obtain ⟨h₁, h₂, h₃⟩ := hasVersion_iff.mp hfv
  obtain ⟨h₁', h₂', h₃'⟩ := hasVersion_iff.mp hgv
  exact List.inj_on_of_nodup_map h.fileVersions hf hg (by rw [h₁, h₂, h₃, h₁', h₂', h₃'])

lemma Indexed.fade (hi : Indexed d) (ids : List ℕ) :
    Indexed { d with files := setRows CachedFile.id ids invalidated d.files } where
  reservationIds := hi.reservationIds
  reservationVersions := hi.reservationVersions
  fileIds := by
    have hmap : (setRows CachedFile.id ids invalidated d.files).map CachedFile.id =
        d.files.map CachedFile.id := map_id_setRows fun _ _ _ => rfl
    exact hmap.symm ▸ hi.fileIds
  fileVersions := by
    have hmap : (setRows CachedFile.id ids invalidated d.files).map
        (fun f => (f.roomId, f.sourceRelativePath, f.sourceVersionHash)) =
        d.files.map fun f => (f.roomId, f.sourceRelativePath, f.sourceVersionHash) := by
      rw [setRows, List.map_map]
      refine List.map_congr_left fun x _ => ?_
      rw [Function.comp_apply]
      split
      · rfl
      · rfl
    exact hmap.symm ▸ hi.fileVersions

/-- The old files have gone, and nothing else has. -/
lemma eval_replaceFiles (next : Program) (old : List CachedFile) (hi : Indexed d) :
    ∃ d', (replaceFiles next old).eval d = next.eval d' ∧ Indexed d' ∧ d'.rooms = d.rooms ∧
      d'.reservations = d.reservations := by
  induction old generalizing d with
  | nil => exact ⟨d, rfl, hi, rfl, rfl⟩
  | cons f old ih =>
    rw [replaceFiles, Table.eval_update]
    have hfade := hi.fade (files.ids (fun g => g.id = f.id) d)
    exact ih ⟨hi.reservationIds, hi.reservationVersions, hfade.fileIds, hfade.fileVersions⟩

/-- With the file stored, the update of the reservation completes it. -/
lemma completed_of_setCompleted {cached : CachedFile}
    (he : (setCompleted q cached).eval d = (.ok (.file pf), d'))
    (hids : (d.reservations.map (·.id)).Nodup)
    (hversions : ∀ x ∈ d.reservations,
      sameVersion r.roomId r.sourceRelativePath r.sourceVersionHash x = true → x = r)
    (hr : r ∈ d.reservations) (hid : r.id = q.reservationId)
    (hroom : (d.room q.userId r.roomId).isSome)
    (hcached : cached ∈ d.files)
    (hfile : ∀ f ∈ d.files, f.id = cached.id ∨
      hasVersion r.roomId r.sourceRelativePath r.sourceVersionHash f = true → f = cached) :
    Completed q r pf 0 d' ∧ pf = publicFile cached := by
  rw [setCompleted, Txn.eval_lock] at he
  split at he
  · cases congrArg Prod.fst he
  next htaken =>
  rw [Table.eval_update] at he
  have hpf : publicFile cached = pf := Response.file.inj (Except.ok.inj (congrArg Prod.fst he))
  have hd' := congrArg Prod.snd he
  subst hpf
  subst hd'
  have hmem : ∀ x ∈ d.reservations,
      x.id ∈ reservations.ids (fun s => s.id = q.reservationId) d ↔ x.id = r.id := by
    intro x hx
    constructor
    · intro hi
      obtain ⟨y, hy, hyid⟩ := List.mem_map.mp hi
      exact hyid.symm.trans ((of_decide_eq_true (List.mem_filter.mp hy).2).trans hid.symm)
    · intro hi
      exact List.mem_map_of_mem (List.mem_filter.mpr ⟨hx, decide_eq_true (hi.trans hid)⟩)
  refine ⟨⟨hroom, ?_, ?_, ?_, ⟨cached, hcached, rfl⟩, ?_⟩, rfl⟩
  · have hmap : ∀ ids, (setRows Reservation.id ids (completed q) d.reservations).map
        Reservation.id = d.reservations.map Reservation.id :=
      fun ids => map_id_setRows fun _ _ _ => rfl
    exact (hmap _).symm ▸ hids
  · exact mem_setRows_of_mem hr ((hmem r hr).mpr rfl)
  · intro y hy hm
    obtain ⟨x, hx, rfl⟩ := mem_setRows.mp hy
    split at hm
    · next hi =>
      rw [if_pos hi, eq_of_id_eq hids hx hr ((hmem x hx).mp hi)]
    · next hi =>
      exfalso
      have hne : x.id ≠ r.id := fun hxr => hi ((hmem x hx).mpr hxr)
      rcases hm with hm | ⟨hdev, hkey⟩ | hm
      · exact hne hm
      · refine htaken (List.any_eq_true.mpr ⟨x, hx, ?_⟩)
        simp [hdev, hkey, hid ▸ hne]
      · exact hne (congrArg Reservation.id (hversions x hx hm))
  · intro f hf hm
    rw [hfile f hf hm]
    exact fileKept_self cached

/-- The stored file is the upload of the request. -/
lemma completed_of_storeFile (hi : Indexed d) (hr : r ∈ d.reservations)
    (hid : r.id = q.reservationId) (hroom : (d.room q.userId r.roomId).isSome)
    (he : (storeFile q r).eval d = (.ok (.file pf), d')) :
    Completed q r pf 0 d' ∧ Uploaded q r pf := by
  have hversions : ∀ x ∈ d.reservations,
      sameVersion r.roomId r.sourceRelativePath r.sourceVersionHash x = true → x = r :=
    fun x hx hv => hi.reservation_eq hx hr hv
  rw [storeFile, Txn.eval_lock] at he
  split at he
  · cases congrArg Prod.fst he
  next hany =>
  rw [eval_clock, Table.eval_upsert] at he
  split at he
  · next f hfind =>
    have hf := List.mem_of_find?_eq_some hfind
    have hfv := List.find?_some hfind
    have hfi : f.id ∈ files.ids (hasVersion r.roomId r.sourceRelativePath r.sourceVersionHash) d :=
      List.mem_map_of_mem (List.mem_filter.mpr ⟨hf, hfv⟩)
    have hfile : ∀ g ∈ setRows CachedFile.id
        (files.ids (hasVersion r.roomId r.sourceRelativePath r.sourceVersionHash) d)
        (restored q d.now) d.files, g.id = f.id ∨
          hasVersion r.roomId r.sourceRelativePath r.sourceVersionHash g = true →
        g = restored q d.now f := by
      intro g hg hm
      obtain ⟨x, hx, rfl⟩ := mem_setRows.mp hg
      have hxf : x = f := by
        split at hm
        · rcases hm with hm | hm
          · exact eq_of_id_eq hi.fileIds hx hf hm
          · exact hi.file_eq hx hf hm hfv
        · rcases hm with hm | hm
          · exact eq_of_id_eq hi.fileIds hx hf hm
          · exact hi.file_eq hx hf hm hfv
      rw [hxf, if_pos hfi]
    obtain ⟨hdone, rfl⟩ := completed_of_setCompleted he hi.reservationIds hversions hr hid hroom
      (mem_setRows_of_mem hf hfi) hfile
    obtain ⟨h₁, h₂, h₃⟩ := hasVersion_iff.mp hfv
    exact ⟨hdone, h₁, h₂, h₃, rfl, rfl, rfl, rfl, rfl⟩
  · next hfind =>
    have hfile : ∀ g ∈ d.files ++ [newFile q r d.now], g.id = q.newId ∨
          hasVersion r.roomId r.sourceRelativePath r.sourceVersionHash g = true →
        g = newFile q r d.now := by
      intro g hg hm
      rcases List.mem_append.mp hg with hg | hg
      · exfalso
        rcases hm with hm | hm
        · exact hany (List.any_eq_true.mpr ⟨g, hg, decide_eq_true hm⟩)
        · exact List.find?_eq_none.mp hfind g hg hm
      · exact List.mem_singleton.mp hg
    obtain ⟨hdone, rfl⟩ := completed_of_setCompleted he hi.reservationIds hversions hr hid hroom
      (List.mem_append_right _ (List.mem_singleton_self _)) hfile
    exact ⟨hdone, rfl, rfl, rfl, rfl, rfl, rfl, rfl, rfl⟩

/-- The completion leaves the reservation completed and the file there. -/
lemma Completes.completed (hi : Indexed d) (h : Completes env b q r pf d d') :
    Completed q r pf 0 d' ∧ Uploaded q r pf ∧ r.desktopDeviceId = q.deviceId ∧
      env.smartCacheEnabled = true := by
  have he := h.answers
  rw [complete, enabled] at he
  split at he
  swap
  · cases congrArg Prod.fst he
  next henv =>
  rw [eval_select] at he
  split at he
  · next replay hreplay =>
    exfalso
    split at he
    · cases congrArg Prod.fst he
    · next hsame =>
      have hmem := List.mem_of_find?_eq_some hreplay
      have hcond := List.find?_some hreplay
      simp only [Bool.and_eq_true, decide_eq_true_eq] at hcond
      have heq : replay = r :=
        eq_of_id_eq hi.reservationIds hmem h.mem ((not_not.mp hsame).trans h.id.symm)
      rw [heq, h.unused] at hcond
      cases hcond.1.1
  rw [eval_select] at he
  split at he
  · cases congrArg Prod.fst he
  next x hx =>
  have hcond := List.find?_some hx
  simp only [Bool.and_eq_true, decide_eq_true_eq] at hcond
  have hxr : x = r := eq_of_id_eq hi.reservationIds (List.mem_of_find?_eq_some hx) h.mem
    (hcond.1.1.trans h.id.symm)
  subst hxr
  rw [eval_clock] at he
  split at he
  · cases congrArg Prod.fst he
  next hopen =>
  split at he
  · cases congrArg Prod.fst he
  revert he
  refine lockConnection_cases (P := fun y : Except Code Response × Db =>
    y = (.ok (.file pf), d') → Completed q x pf 0 d' ∧ Uploaded q x pf ∧
      x.desktopDeviceId = q.deviceId ∧ env.smartCacheEnabled = true)
    (fun he => by cases congrArg Prod.fst he) (fun he => by cases congrArg Prod.fst he)
    fun he => ?_
  rw [eval_selectFor, find?_of_unique h.mem (decide_eq_true h.id) fun y hy hyid =>
    eq_of_id_eq hi.reservationIds hy h.mem ((of_decide_eq_true hyid).trans h.id.symm)] at he
  dsimp only at he
  rw [completeLocked, if_neg (by rw [h.reserved]; decide), eval_clock, if_neg hopen,
    Txn.eval_read] at he
  obtain ⟨d₂, hd₂, hi₂, hrooms, hreservations⟩ := eval_replaceFiles (storeFile q x)
    (d.files.filter (isAvailableAt x.roomId x.sourceRelativePath)) hi
  rw [hd₂] at he
  have hroom : (d₂.room q.userId x.roomId).isSome := by
    rw [Db.room, hrooms]
    exact hcond.2
  obtain ⟨hdone, hu⟩ := completed_of_storeFile hi₂ (hreservations ▸ h.mem) h.id hroom he
  exact ⟨hdone, hu, hcond.1.2, henv⟩

def sampleReservation : Reservation :=
  ⟨5, 2, 3, 9, "a.txt", "1", "h1", 10, .reserved, 100, "cache/1/3/5", none⟩

/-- A reservation is open. -/
def openTables : Db := { sampleTables with reservations := [sampleReservation] }

def sampleComplete : Complete := ⟨1, 9, 5, "key", 10, "digest", 20, false, "aes", some 10, 7⟩

def sampleFile : PublicFile :=
  ⟨7, 3, "a.txt", "1", "h1", 20, false, 10, "digest", "aes", .available, .verifiedCurrent, 0, 0,
    none⟩

def sampleCompleted : Db :=
  (complete sampleEnvironment sampleBackend sampleComplete).served openTables

/-- The file is opened on a phone. -/
def sampleAccess : Work := .request sampleBackend (.recordAccess ⟨1, 7⟩)

/-- The source is scanned again. -/
def sampleStale : Work := .request sampleBackend (.markStale ⟨1, 9, 3, none, .reindexed⟩)

lemma indexed_sample : Indexed openTables where
  reservationIds := by decide
  reservationVersions := by decide +kernel
  fileIds := .nil
  fileVersions := .nil

lemma completes_sample : Completes sampleEnvironment sampleBackend sampleComplete
    sampleReservation sampleFile openTables sampleCompleted where
  mem := List.mem_singleton_self _
  id := rfl
  reserved := rfl
  unused := rfl
  answers := by rfl

end MouseKeeper.Storage.SmartCache
