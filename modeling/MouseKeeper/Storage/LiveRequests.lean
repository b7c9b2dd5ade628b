import MouseKeeper.Storage.HarmlessRequests

/-!
The requests that make something live, behind the locks of a connection.
-/

namespace MouseKeeper.Storage.RemovedRooms

open MouseKeeper.ReadCommitted
open MouseKeeper.Server (Device Room)

variable {n : ℕ}

/-! ### Statements -/

section Create

variable {Q R α : Type} {q : Q} {held : List Lock} {f : Db → Db} {d : Db} {e : Effect}

lemma keeps_select {row : Db → Option α} {next : Option α → Storage.Program R}
    (h : Effects n held f d e) (hn : ∀ d', Effects n held f d' e →
      Keeps n q (next (row (f d'))) held f d') : Keeps n q (select row next) held f d :=
  Storage.keeps_select fun d' hd _ => hn d' (h.rely hd (List.Subset.refl _))

lemma keeps_clock {next : ℕ → Storage.Program R} (h : Effects n held f d e)
    (hn : ∀ now d', Effects n held f d' e → Keeps n q (next now) held f d') :
    Keeps n q (clock next) held f d :=
  Storage.keeps_clock fun d' hd _ => hn _ d' (h.rely hd (List.Subset.refl _))

lemma keeps_lock {locks : Db → List Lock} {next : Db → Storage.Program R}
    (h : Effects n held f d e) (hn : ∀ v held' d', held ⊆ held' → Allowed n held d d' →
      Effects n held' f d' e → Keeps n q (next v) held' f d') :
    Keeps n q (Txn.lock locks next) held f d :=
  Storage.keeps_lock fun d' hd _ => hn _ _ d' (List.subset_append_right _ _) hd
    (h.rely hd (List.subset_append_right _ _))

end Create

/-! ### Behind the locks of a connection -/

/-- Works of the room on the device may come to life. -/
def Opened (n : ℕ) (held : List Lock) (d : Db) (roomId deviceId : ℕ) : Prop :=
  ∀ p : Place, p.roomId = roomId → (∀ id ∈ p.deviceId, id = deviceId) → Open n held d p

/-- What is left of a request keeps the protocol where works of the room may come to life. -/
def Safe {Q R : Type} (n : ℕ) (q : Q) (roomId deviceId : ℕ) (t : Storage.Program R) : Prop :=
  ∀ held f d e, Effects n held f d e → e.removed = [] → Opened n held d roomId deviceId →
    Keeps n q t held f d

section Safe

variable {Q R α : Type} {q : Q} {roomId deviceId : ℕ} {held held' : List Lock} {f : Db → Db}
  {d d' : Db} {e : Effect}

lemma Opened.rely (h : Opened n held d roomId deviceId) (hd : Allowed n held d d')
    (hs : held ⊆ held') : Opened n held' d' roomId deviceId :=
  fun p hp hdev => (h p hp hdev).rely hd hs

lemma Harmless.safe {t : Storage.Program R} (ht : Harmless t) : Safe n q roomId deviceId t :=
  fun _ _ _ _ h hr _ => ht.keeps h hr

lemma safe_refuse {code : Code} : Safe n q roomId deviceId (.answer (.error code) : Storage.Program R) :=
  Harmless.safe True.intro

lemma safe_lock {locks : Db → List Lock} {next : Db → Storage.Program R}
    (h : ∀ v, Safe n q roomId deviceId (next v)) :
    Safe n q roomId deviceId (Txn.lock locks next) :=
  fun _ _ _ _ he hr ho => keeps_lock he fun v _ _ hs hd he' => h v _ _ _ _ he' hr (ho.rely hd hs)

lemma safe_read {next : Db → Storage.Program R} (h : ∀ v, Safe n q roomId deviceId (next v)) :
    Safe n q roomId deviceId (Txn.read next) :=
  safe_lock h

lemma safe_clock {next : ℕ → Storage.Program R} (h : ∀ now, Safe n q roomId deviceId (next now)) :
    Safe n q roomId deviceId (clock next) :=
  safe_lock fun v => h v.now

lemma safe_select {row : Db → Option α} {next : Option α → Storage.Program R}
    (h : ∀ x, Safe n q roomId deviceId (next x)) : Safe n q roomId deviceId (select row next) :=
  safe_lock fun v => h (row v)

lemma safe_selectFor {row : Db → Option α} {locks : α → List Lock}
    {next : Option α → Storage.Program R} (h : ∀ x, Safe n q roomId deviceId (next x)) :
    Safe n q roomId deviceId (selectFor row locks next) :=
  safe_lock fun v => h (row v)

/-- A statement that changes works, after which none is live that was not or may be. -/
lemma safe_change {locks : Db → List Lock} {change : Db → Db → Db} {next : Db → Storage.Program R}
    (hc : ∀ v, ∃ g, Change (locks v) (change v) g ∧ (v.Unique → ∀ w ∈ v.works, (g w).live = true →
      w.live = true ∨ (w.place.roomId = roomId ∧ ∀ id ∈ w.place.deviceId, id = deviceId)))
    (h : ∀ v, Safe n q roomId deviceId (next v)) :
    Safe n q roomId deviceId (.stmt locks change next) := by
  intro held f d e he hr ho
  choose g hg hlive using hc
  refine keeps_stmt he hr hg (fun d' hd hi he' w hw hl => ?_) fun d' hd _ he' =>
    h (f d') _ _ _ _ he' hr (ho.rely hd (List.subset_append_right _ _))
  exact (hlive (f d') (he'.unique hi) w hw hl).imp_right fun hp =>
    (ho.rely hd (List.Subset.refl _)) _ hp.1 hp.2

lemma safe_modify {change : Db → Db} {next : Storage.Program R}
    (hw : ∀ d, (change d).works = d.works) (hr : ∀ d, (change d).rooms = d.rooms)
    (h : Safe n q roomId deviceId next) : Safe n q roomId deviceId (modify change next) :=
  safe_change (fun _ => ⟨id, Change.aside hw hr _, fun _ _ _ hl => .inl hl⟩) fun _ => h

lemma safe_update (k : WorkTable α) {cond : α → Bool} {set : α → α}
    {next : List α → Storage.Program R}
    (hlock : ∀ x, (k.work (set x)).lock = (k.work x).lock)
    (hplace : ∀ x, (k.work (set x)).place = (k.work x).place)
    (hwaits : ∀ x, (k.work (set x)).waiting = true → (k.work x).waiting = true)
    (hlive : ∀ x, cond x = true → (k.work (set x)).live = true → (k.work x).live = true)
    (h : ∀ rows, Safe n q roomId deviceId (next rows)) :
    Safe n q roomId deviceId (k.table.update cond set next) := by
  refine safe_change (fun v => ⟨k.lift (k.table.ids cond v) set,
    WorkTable.change_set hlock hplace hwaits, fun hu w hw hl => ?_⟩) fun v => h _
  rcases WorkTable.lift_matching k cond set hu hw with heq | ⟨x, -, hc, rfl, heq⟩
  · rw [heq] at hl
    exact .inl hl
  · rw [heq] at hl
    exact .inl (hlive x hc hl)

/-- A new work of the room comes in, or the row is there already. -/
lemma safe_insert (k : WorkTable α) {conflicts : α → Bool} {row : α} {keys : List Lock}
    {next : Bool → Storage.Program R}
    (hid : ∀ x, (k.work x).lock = (k.work row).lock → conflicts x = true)
    (hplace : (k.work row).place.roomId = roomId ∧
      ∀ id ∈ (k.work row).place.deviceId, id = deviceId)
    (h : ∀ new, Safe n q roomId deviceId (next new)) :
    Safe n q roomId deviceId (k.table.insert conflicts row keys next) := by
  intro held f d e he hr ho
  refine Storage.keeps_insert (fun d' hd hi hno => ?_) fun d' hd hi _ =>
    h false _ _ _ _ (he.rely hd (List.Subset.refl _)) hr (ho.rely hd (List.Subset.refl _))
  have he' := he.rely hd (List.Subset.refl _)
  have ho' := ho.rely hd (List.Subset.refl _)
  refine h true _ _ _ _ (he'.add hr (fun x y => k.mem_put_append row x y) (fun x => k.rooms _ x) ?_
    (fun x hx hl => ?_) (ho' _ hplace.1 hplace.2)) hr
    (ho.rely hd (List.subset_append_right _ _))
  · rw [k.lock]
    exact List.mem_append_left _ (List.mem_singleton_self _)
  · obtain ⟨y, rfl⟩ := k.of_lock x row hl
    have hc := hno y ((k.mem _ y).mp hx)
    rw [hid y hl] at hc
    cases hc

/-- The request has locked an active connection. -/
lemma keeps_connection {i : Fin n} {noDevice noRoom next : Storage.Program R} {userId : ℕ}
    (h : Effects n held f d e) (hr : e.removed = []) (hdevice : Harmless noDevice)
    (hroom : Harmless noRoom) (hn : Safe n q roomId deviceId next) :
    Keeps n q (lockConnection ⟨n, i⟩ userId deviceId roomId noDevice noRoom next) held f d := by
  refine Storage.keeps_lockConnection (fun d₁ h₁ _ _ =>
    hdevice.keeps (h.rely h₁ (List.Subset.refl _)) hr) fun v d₁ h₁ _ _ d₂ h₂ _ => ?_
  have hs := List.subset_append_right (Backend.share ⟨n, i⟩ (.device deviceId)) held
  have h' := (h.rely h₁ hs).rely h₂ (List.Subset.refl _)
  refine ⟨fun _ => hroom.keeps h' hr, fun r hfind => ?_⟩
  have hs' := List.subset_append_right (Backend.share ⟨n, i⟩ (.room roomId))
    (Backend.share ⟨n, i⟩ (.device deviceId) ++ held)
  refine hn _ _ _ _ (h'.rely (.refl _ _) hs') hr fun p hp hdev => ?_
  have hcond := List.find?_some hfind
  have hmem := List.mem_of_find?_eq_some hfind
  simp only [Bool.and_eq_true, decide_eq_true_eq] at hcond
  rw [h'.rooms, hr] at hmem
  refine ⟨⟨i, i.isLt, ?_⟩, r, ?_, hcond.1.1.1.trans hp.symm, hcond.2, fun id hid => ?_⟩
  · rw [hp]
    exact List.mem_append_left _ (List.mem_singleton_self _)
  · simpa [setRows] using hmem
  · rw [hcond.1.1.2, hdev id hid]

end Safe

/-! ### Transfers and browse requests -/

section Creating

variable {Q : Type} {q : Q} {d : Db} {i : Fin n}

lemma keeps_createTransfer (env : Transfers.Environment) (r : Transfers.Create) :
    Keeps n q (Transfers.create env ⟨n, i⟩ r) [] id d := by
  refine keeps_select (.none [] d) fun d₁ h₁ => ?_
  split
  · exact True.intro
  refine keeps_connection h₁ rfl True.intro True.intro ?_
  split
  · exact safe_refuse
  refine safe_clock fun now => safe_insert transferWorks (fun t hl => ?_)
    ⟨rfl, fun id hid => (Option.some.inj hid).symm⟩ fun new => Harmless.safe ?_
  · have hid : t.id = r.newId := Lock.transfer.inj hl
    simp [hid]
  · cases new with
    | true => exact True.intro
    | false =>
      refine harmless_select fun existing => ?_
      cases existing with
      | none => exact True.intro
      | some existing =>
        dsimp only
        split
        · exact True.intro
        · exact True.intro

lemma keeps_createBrowse {R : Type} (r : Browses.Create) (done : Browse → R) :
    Keeps n q (Browses.create ⟨n, i⟩ r done) [] id d := by
  refine keeps_select (.none [] d) fun d₁ h₁ => ?_
  split
  · exact True.intro
  refine keeps_connection h₁ rfl True.intro True.intro <| safe_clock fun now =>
    safe_insert browseWorks (fun t hl => ?_) ⟨rfl, fun id hid => (Option.some.inj hid).symm⟩
      fun new => Harmless.safe ?_
  · have hid : t.id = r.newId := Lock.browse.inj hl
    simp [hid]
  · cases new with
    | true => exact True.intro
    | false => exact True.intro

/-! ### submit -/

section Submit

variable {r : SmartCache.Submit} {policy : Policy}

lemma safe_deleteFile {f : CachedFile} {roomId deviceId : ℕ} {next : SmartCache.Program}
    (h : Safe n q roomId deviceId next) :
    Safe n q roomId deviceId (SmartCache.deleteObject f next) :=
  safe_clock fun _ => safe_modify (fun _ => rfl) (fun _ => rfl) h

lemma safe_invalidated {cond : CachedFile → Bool} {roomId deviceId : ℕ}
    {next : List CachedFile → SmartCache.Program}
    (h : ∀ rows, Safe n q roomId deviceId (next rows)) :
    Safe n q roomId deviceId (files.update cond SmartCache.invalidated next) :=
  safe_update fileWorks (fun _ => rfl) (fun _ => rfl) (fun _ h => h)
    (fun _ _ hl => absurd hl (by simp [fileWorks, Work.live, SmartCache.invalidated])) h

lemma safe_evict {c : SmartCache.Candidate} {roomId deviceId : ℕ}
    {next : List CachedFile → ℤ → SmartCache.Program}
    (h : ∀ evictable allocated, Safe n q roomId deviceId (next evictable allocated))
    (evictable : List CachedFile) (allocated : ℤ) :
    Safe n q roomId deviceId (SmartCache.evict policy c next evictable allocated) := by
  induction evictable generalizing allocated with
  | nil => exact h [] allocated
  | cons f evictable ih =>
    rw [SmartCache.evict]
    split
    · exact h _ _
    split
    · exact h _ _
    · exact safe_invalidated fun
        | [] => ih _
        | _ :: _ => safe_deleteFile (ih _)

lemma safe_reserve {c : SmartCache.Candidate} {next : Option Reservation → SmartCache.Program}
    (h : ∀ row, Safe n q r.roomId r.deviceId (next row)) :
    Safe n q r.roomId r.deviceId (SmartCache.reserve r c next) := by
  refine safe_clock fun now => safe_insert reservationWorks (fun t hl => ?_)
    ⟨rfl, fun id hid => (Option.some.inj hid).symm⟩ fun new => ?_
  · have hid : t.id = c.newId := Lock.reservation.inj hl
    simp [hid]
  · cases new with
    | true => exact h _
    | false => exact h _

lemma safe_approve {done : List Reservation → SmartCache.Program}
    (h : ∀ approved, Safe n q r.roomId r.deviceId (done approved))
    (candidates : List SmartCache.Candidate) (evictable : List CachedFile) (allocated : ℤ)
    (approved : List Reservation) : Safe n q r.roomId r.deviceId
      (SmartCache.approve r policy done candidates evictable allocated approved) := by
  induction candidates generalizing evictable allocated approved with
  | nil => exact h approved
  | cons c candidates ih =>
    rw [SmartCache.approve]
    split
    · exact ih _ _ _
    split
    · exact ih _ _ _
    refine safe_evict (fun evictable allocated => ?_) _ _
    split
    · exact ih _ _ _
    · exact safe_reserve fun
        | some _ => ih _ _ _
        | none => ih _ _ _

lemma safe_submitBatch : Safe n q r.roomId r.deviceId (SmartCache.submitBatch r) := by
  refine safe_change (fun v => ⟨id, ?_, fun _ _ _ hl => .inl hl⟩) fun v => ?_
  · refine Change.aside (fun d => ?_) (fun d => ?_) _
    · split <;> rfl
    · split <;> rfl
  · dsimp only
    split
    · exact safe_refuse
    · refine safe_select fun policy => ?_
      cases policy with
      | none => exact safe_refuse
      | some policy =>
        refine safe_read fun _ => safe_clock fun now => safe_read fun _ => ?_
        refine safe_read fun _ => safe_approve (fun approved => ?_) _ _ _ _
        exact Harmless.safe True.intro

end Submit

lemma keeps_submit (env : SmartCache.Environment) (r : SmartCache.Submit) :
    Keeps n q (SmartCache.submit env ⟨n, i⟩ r) [] id d := by
  rw [SmartCache.submit, SmartCache.enabled]
  split
  swap
  · exact True.intro
  rw [SmartCache.assertConfigured]
  split
  swap
  · exact True.intro
  refine keeps_select (.none [] d) fun d₁ h₁ => ?_
  split
  · exact True.intro
  dsimp only
  split
  · exact True.intro
  refine keeps_lock h₁ fun _ held d₂ _ _ h₂ => keeps_connection h₂ rfl True.intro True.intro <|
    safe_select fun replay => ?_
  cases replay with
  | some replay =>
    refine Harmless.safe ?_
    dsimp only
    split
    · exact True.intro
    · exact harmless_read fun _ => True.intro
  | none => exact safe_submitBatch

/-! ### complete -/

section Complete

variable {r : SmartCache.Complete} {reservation : Reservation}

lemma harmless_setCompleted (cached : CachedFile) : Harmless (SmartCache.setCompleted r cached) := by
  refine harmless_lock fun v => ?_
  split
  · exact True.intro
  · exact harmless_reservations (fun _ => rfl) (fun _ => rfl) (fun _ hs => by cases hs)
      fun _ => True.intro

/-- A locked identifier that is free stays free. -/
lemma Effects.fresh_rely {held : List Lock} {f : Db → Db} {d d' : Db} {e : Effect} {l : Lock}
    (h : Effects n held f d e) (hd : Allowed n held d d') (hl : l ∈ held)
    (hf : ∀ w ∈ (f d).works, w.lock ≠ l) : ∀ w ∈ (f d').works, w.lock ≠ l := by
  intro w hw hwl
  rcases (h.works d' w).mp hw with ⟨x, hx, rfl⟩ | hw
  · rw [h.lock] at hwl
    have hx' := hd.locked x hx (hwl ▸ hl)
    exact hf _ ((h.works d _).mpr (.inl ⟨x, hx', rfl⟩)) ((h.lock x).trans hwl)
  · exact hf w ((h.works d w).mpr (.inr hw)) hwl

/-- The row comes in under a free identifier, or the rows in its way are changed, in the room. -/
lemma keeps_upsert {α R : Type} (k : WorkTable α) {conflicts : α → Bool} {row : α}
    {set : α → α} {keys held : List Lock} {next : α → Storage.Program R} {f : Db → Db}
    {e : Effect} {roomId deviceId : ℕ} (he : Effects n held f d e) (hr : e.removed = [])
    (ho : Opened n held d roomId deviceId) (hl : (k.work row).lock ∈ held)
    (hfresh : ∀ w ∈ (f d).works, w.lock ≠ (k.work row).lock)
    (hlock : ∀ x, (k.work (set x)).lock = (k.work x).lock)
    (hplace : ∀ x, (k.work (set x)).place = (k.work x).place)
    (hwaits : ∀ x, (k.work (set x)).waiting = true → (k.work x).waiting = true)
    (hold : ∀ x, conflicts x = true → (k.work x).place = (k.work row).place)
    (hnew : (k.work row).place.roomId = roomId ∧
      ∀ id ∈ (k.work row).place.deviceId, id = deviceId)
    (h : ∀ x, Safe n q roomId deviceId (next x)) :
    Keeps n q (k.table.upsert conflicts row set keys next) held f d := by
  intro d' hd hi _
  have he' := he.rely hd (List.Subset.refl _)
  have ho' := ho.rely hd (List.Subset.refl _)
  by_cases hc : (k.table.rows (f d')).any conflicts
  · simp only [hc, if_true]
    refine h _ _ _ _ _ (he'.change hr (k.change_set hlock hplace hwaits) fun w hw hwl => ?_) hr
      (ho'.rely (.refl _ _) (List.subset_append_right _ _))
    rcases WorkTable.lift_matching k conflicts set (he'.unique hi) hw with heq | ⟨x, -, hcx, rfl, -⟩
    · rw [heq] at hwl
      exact .inl hwl
    · exact .inr (ho' _ ((hold x hcx).symm ▸ hnew.1) ((hold x hcx).symm ▸ hnew.2))
  · simp only [hc, Bool.false_eq_true, if_false]
    refine h _ _ _ _ _ (he'.add hr (fun x y => k.mem_put_append row x y) (fun x => k.rooms _ x) ?_
      (he.fresh_rely hd hl hfresh) (ho' _ hnew.1 hnew.2)) hr
      (ho'.rely (.refl _ _) (List.subset_append_right _ _))
    rw [k.lock]
    exact List.mem_append_left _ (List.mem_singleton_self _)

/-- The file comes in, or it is available again in its room. -/
lemma safe_storeFile {deviceId : ℕ} :
    Safe n q reservation.roomId deviceId (SmartCache.storeFile r reservation) := by
  intro held f d e he hr ho
  refine Storage.keeps_lock fun d₁ hd₁ _ => ?_
  have hs := List.subset_append_right [Lock.file r.newId] held
  have he₁ := he.rely hd₁ hs
  split
  · exact True.intro
  rename_i hany
  have hfresh : ∀ w ∈ (f d₁).works, w.lock ≠ .file r.newId := by
    intro w hw hl
    obtain ⟨x, rfl⟩ := fileWorks.of_lock w (SmartCache.newFile r reservation 0) hl
    refine hany (List.any_eq_true.mpr ⟨x, (fileWorks.mem _ x).mp hw, ?_⟩)
    exact decide_eq_true (Lock.file.inj hl)
  have hl : Lock.file r.newId ∈ [Lock.file r.newId] ++ held :=
    List.mem_append_left _ (List.mem_singleton_self _)
  refine Storage.keeps_clock fun d₂ hd₂ _ => keeps_upsert fileWorks
    (he₁.rely hd₂ (List.Subset.refl _)) hr ((ho.rely hd₁ hs).rely hd₂ (List.Subset.refl _)) hl
    (he₁.fresh_rely hd₂ hl hfresh) (fun _ => rfl) (fun _ => rfl) (fun _ h => h) (fun x hx => ?_)
    ⟨rfl, fun id hid => by cases hid⟩ fun x => (harmless_setCompleted x).safe
  simp only [SmartCache.hasVersion, Bool.and_eq_true, decide_eq_true_eq] at hx
  simp [fileWorks, Work.place, SmartCache.newFile, hx.1.1]

lemma safe_replaceFiles {roomId deviceId : ℕ} {next : SmartCache.Program}
    (h : Safe n q roomId deviceId next) (old : List CachedFile) :
    Safe n q roomId deviceId (SmartCache.replaceFiles next old) := by
  induction old with
  | nil => exact h
  | cons f old ih => exact safe_invalidated fun _ => safe_deleteFile ih

end Complete

lemma keeps_complete (env : SmartCache.Environment) (r : SmartCache.Complete) :
    Keeps n q (SmartCache.complete env ⟨n, i⟩ r) [] id d := by
  have hanswer : ∀ f, Harmless (SmartCache.answerUpload r f) := fun
    | none => True.intro
    | some f => by
      rw [SmartCache.answerUpload]
      split
      · exact True.intro
      · exact True.intro
  rw [SmartCache.complete, SmartCache.enabled]
  split
  swap
  · exact True.intro
  refine keeps_select (.none [] d) fun d₁ h₁ => ?_
  split
  · split
    · exact True.intro
    · exact (harmless_select hanswer).keeps h₁ rfl
  refine keeps_select h₁ fun d₂ h₂ => ?_
  split
  · exact True.intro
  refine keeps_clock h₂ fun now d₃ h₃ => ?_
  split
  · exact True.intro
  split
  · exact True.intro
  refine keeps_connection h₃ rfl True.intro True.intro <| safe_selectFor fun current => ?_
  cases current with
  | none => exact safe_refuse
  | some current =>
    dsimp only
    rw [SmartCache.completeLocked]
    split
    · refine Harmless.safe ?_
      split
      · exact True.intro
      · exact harmless_select hanswer
    refine safe_clock fun now => ?_
    split
    · exact safe_refuse
    · exact safe_read fun _ => safe_replaceFiles safe_storeFile _

end Creating

end MouseKeeper.Storage.RemovedRooms
