import MouseKeeper.Storage.Approvals

/-!
The files that `submit` evicts.

A candidate that does not fit takes the least used files one by one, until it fits or comes to a
file that it does not beat. What it has taken is gone even if it does not fit in the end, or if its
version has a reservation already.
-/

namespace MouseKeeper.Storage.SmartCache

open MouseKeeper.ReadCommitted

/-! ### The turns -/

/-- The turn of a candidate: the bytes allocated when it comes, the files that are evicted in it,
and whether the candidate is approved. -/
structure Turn where
  candidate : Candidate
  before : ℤ
  evicted : List CachedFile
  approved : Bool

/-- What a turn finds: the files left to evict, the bytes allocated and the reservations. -/
structure Stock where
  evictable : List CachedFile
  allocated : ℤ
  taken : List Reservation

/-- A file gives way to a pinned candidate, and to one with a higher score. -/
def Beats (c : Candidate) (f : CachedFile) : Bool := c.manualPin || f.usageScore < c.usageScore

/-- The files that are evicted for a candidate, those left after them, and what is allocated. -/
def clear (policy : Policy) (c : Candidate) :
    List CachedFile → ℤ → List CachedFile × List CachedFile × ℤ
  | [], a => ([], [], a)
  | f :: l, a =>
    if a + c.sizeBytes ≤ policy.quotaBytes then ([], f :: l, a)
    else if Beats c f then
      let x := clear policy c l (a - f.sizeBytes)
      (f :: x.1, x.2)
    else ([], l, a)

/-- The insert of the reservation of the candidate conflicts. -/
def conflicts (q : Submit) (c : Candidate) (taken : List Reservation) : Bool :=
  taken.any fun r => r.id = c.newId || ofCandidate q c r

variable (q : Submit) (policy : Policy) (now : ℕ)

def turn (c : Candidate) (s : Stock) : Turn × Stock :=
  if Permits policy c then
    let x := clear policy c s.evictable s.allocated
    if x.2.2 + c.sizeBytes ≤ policy.quotaBytes ∧ conflicts q c s.taken = false then
      (⟨c, s.allocated, x.1, true⟩,
        ⟨x.2.1, x.2.2 + c.sizeBytes, s.taken ++ [newReservation q c now]⟩)
    else (⟨c, s.allocated, x.1, false⟩, ⟨x.2.1, x.2.2, s.taken⟩)
  else (⟨c, s.allocated, [], false⟩, s)

/-- The turns of the candidates, one after the other. -/
def course : List Candidate → Stock → List Turn
  | [], _ => []
  | c :: candidates, s => (turn q policy now c s).1 :: course candidates (turn q policy now c s).2

/-- What the first turn finds. -/
def stock (d : Db) : Stock := ⟨evictables q d, allocated q d, d.reservations⟩

/-- The answer and the files are those of the turns: the approved candidates have new reservations,
and exactly the evicted files are invalidated. -/
def Accounts (d : Db) (ts : List Turn) (x : Except Code Response × Db) : Prop :=
  x.1 = .ok (.submitted (newBatch q)
    ((ts.filter (·.approved)).map fun t => newReservation q t.candidate d.now)) ∧
  x.2.files = setRows CachedFile.id ((ts.flatMap (·.evicted)).map (·.id)) invalidated d.files

/-! ### The claim -/

/-- Every file is evicted for a candidate that is approved, that beats it and that would not fit
without the files evicted for it; and none is if no candidate is approved. -/
structure Purposeful (ts : List Turn) : Prop where
  each : ∀ t ∈ ts, ∀ f ∈ t.evicted, t.approved = true ∧ Beats t.candidate f = true ∧
    policy.quotaBytes < t.before + t.candidate.sizeBytes
  none : (∀ t ∈ ts, t.approved = false) → ∀ t ∈ ts, t.evicted = []

def bytes (l : List CachedFile) : ℕ := (l.map (·.sizeBytes)).sum

/-- A candidate that does not fit at once and beats the next file finds room for itself in the
files before the first that it does not beat, and its version has no reservation. -/
def Worthwhile (c : Candidate) (s : Stock) : Prop :=
  Permits policy c → policy.quotaBytes < s.allocated + c.sizeBytes →
    (∃ f ∈ s.evictable.head?, Beats c f = true) →
    s.allocated + c.sizeBytes ≤ policy.quotaBytes + bytes (s.evictable.takeWhile (Beats c)) ∧
      conflicts q c s.taken = false

/-- This is so in every turn. -/
def AllWorthwhile : List Candidate → Stock → Prop
  | [], _ => True
  | c :: candidates, s =>
    Worthwhile q policy c s ∧ AllWorthwhile candidates (turn q policy now c s).2

/-! ### What a turn evicts -/

variable {q policy now} {c : Candidate} {a : ℤ} {l : List CachedFile} {d : Db}

lemma beats_of_clear : ∀ f ∈ (clear policy c l a).1,
    Beats c f = true ∧ policy.quotaBytes < a + c.sizeBytes := by
  induction l generalizing a with
  | nil => exact fun f hf => absurd hf List.not_mem_nil
  | cons g l ih =>
    rw [clear]
    split
    · exact fun f hf => absurd hf List.not_mem_nil
    next hfit =>
    split
    · next hb =>
      intro f hf
      refine ⟨?_, not_le.mp hfit⟩
      rcases List.mem_cons.mp hf with rfl | hf
      · exact hb
      · exact (ih f hf).1
    · exact fun f hf => absurd hf List.not_mem_nil

/-- The candidate fits in the end if there is room in the files that it beats. -/
lemma clear_fits_iff : (clear policy c l a).2.2 + c.sizeBytes ≤ policy.quotaBytes ↔
    a + c.sizeBytes ≤ policy.quotaBytes + bytes (l.takeWhile (Beats c)) := by
  induction l generalizing a with
  | nil => simp [clear, bytes]
  | cons g l ih =>
    rw [clear]
    split
    · next hfit => exact iff_of_true hfit (by omega)
    next hfit =>
    split
    · next hb =>
      rw [List.takeWhile_cons_of_pos hb, bytes, List.map_cons, List.sum_cons, ← bytes,
        Int.natCast_add]
      exact ih.trans (by omega)
    · next hb =>
      rw [List.takeWhile_cons_of_neg hb]
      exact iff_of_false hfit (by simpa [bytes] using hfit)

/-- Something is evicted exactly for a candidate that does not fit and beats the next file. -/
lemma clear_ne_nil_iff : (clear policy c l a).1 ≠ [] ↔
    policy.quotaBytes < a + c.sizeBytes ∧ ∃ f ∈ l.head?, Beats c f = true := by
  cases l with
  | nil => simp [clear]
  | cons g l =>
    rw [clear]
    split
    · next hfit => exact iff_of_false (fun h => h rfl) fun h => absurd hfit (not_le.mpr h.1)
    next hfit =>
    split
    · next hb => exact iff_of_true (List.cons_ne_nil _ _) ⟨not_le.mp hfit, g, rfl, hb⟩
    · next hb =>
      refine iff_of_false (fun h => h rfl) ?_
      rintro ⟨-, f, hf, hf'⟩
      cases hf
      exact hb hf'

/-- A turn is fine exactly if it is worthwhile. -/
lemma turn_iff (c : Candidate) (s : Stock) :
    (∀ f ∈ (turn q policy now c s).1.evicted, (turn q policy now c s).1.approved = true) ↔
      Worthwhile q policy c s := by
  rw [turn, Worthwhile]
  by_cases hp : Permits policy c
  swap
  · rw [if_neg hp]
    exact iff_of_true (fun f hf => absurd hf List.not_mem_nil) fun h => absurd h hp
  rw [if_pos hp]
  dsimp only
  by_cases hfine : (clear policy c s.evictable s.allocated).2.2 + c.sizeBytes ≤
      policy.quotaBytes ∧ conflicts q c s.taken = false
  · rw [if_pos hfine]
    exact iff_of_true (fun _ _ => rfl) fun _ _ _ => ⟨clear_fits_iff.mp hfine.1, hfine.2⟩
  · rw [if_neg hfine]
    rw [clear_fits_iff] at hfine
    constructor
    · intro h hp hover hbeats
      obtain ⟨f, hf⟩ := List.exists_mem_of_ne_nil _ (clear_ne_nil_iff.mpr ⟨hover, hbeats⟩)
      cases h f hf
    · intro h f hf
      obtain ⟨hover, hbeats⟩ := clear_ne_nil_iff.mp (List.ne_nil_of_mem hf)
      exact absurd (h hp hover hbeats) hfine

lemma beats_of_turn {c : Candidate} {s : Stock} : ∀ f ∈ (turn q policy now c s).1.evicted,
    Beats (turn q policy now c s).1.candidate f = true ∧ policy.quotaBytes <
      (turn q policy now c s).1.before + (turn q policy now c s).1.candidate.sizeBytes := by
  rw [turn]
  split
  · dsimp only
    split
    · exact beats_of_clear
    · exact beats_of_clear
  · exact fun f hf => absurd hf List.not_mem_nil

lemma purposeful_iff_each (ts : List Turn) (hbeats : ∀ t ∈ ts, ∀ f ∈ t.evicted,
    Beats t.candidate f = true ∧ policy.quotaBytes < t.before + t.candidate.sizeBytes) :
    Purposeful policy ts ↔ ∀ t ∈ ts, ∀ f ∈ t.evicted, t.approved = true := by
  constructor
  · exact fun h t ht f hf => (h.each t ht f hf).1
  · intro h
    refine ⟨fun t ht f hf => ⟨h t ht f hf, hbeats t ht f hf⟩, fun hnone t ht => ?_⟩
    refine List.eq_nil_iff_forall_not_mem.mpr fun f hf => ?_
    have hfalse := hnone t ht
    rw [h t ht f hf] at hfalse
    cases hfalse

lemma beats_of_course (candidates : List Candidate) (s : Stock) :
    ∀ t ∈ course q policy now candidates s, ∀ f ∈ t.evicted,
      Beats t.candidate f = true ∧ policy.quotaBytes < t.before + t.candidate.sizeBytes := by
  induction candidates generalizing s with
  | nil => exact fun t ht => absurd ht List.not_mem_nil
  | cons c candidates ih =>
    intro t ht
    rcases List.mem_cons.mp ht with rfl | ht
    · exact beats_of_turn
    · exact ih _ t ht

/-- The evictions of all turns have their purpose exactly if every turn is worthwhile. -/
lemma purposeful_iff (candidates : List Candidate) (s : Stock) :
    Purposeful policy (course q policy now candidates s) ↔
      AllWorthwhile q policy now candidates s := by
  rw [purposeful_iff_each _ (beats_of_course candidates s)]
  induction candidates generalizing s with
  | nil => exact iff_of_true (fun t ht => absurd ht List.not_mem_nil) trivial
  | cons c candidates ih => rw [course, List.forall_mem_cons, turn_iff, ih, AllWorthwhile]

/-! ### The turns are those of the request -/

lemma clear_sublist : ((clear policy c l a).1 ++ (clear policy c l a).2.1).Sublist l := by
  induction l generalizing a with
  | nil => exact List.Sublist.refl _
  | cons g l ih =>
    rw [clear]
    split
    · exact List.Sublist.refl _
    split
    · exact ih.cons_cons g
    · exact List.sublist_cons_self g l

/-- The files can be evicted: they are in the table as they are, and available. -/
structure Evictable (d : Db) (l : List CachedFile) : Prop where
  ids : (d.files.map (·.id)).Nodup
  mem : ∀ f ∈ l, f ∈ d.files ∧ f.availabilityStatus = .available
  apart : (l.map (·.id)).Nodup

/-- What is left can still be evicted after some have been. -/
lemma Evictable.left {l₁ l₂ : List CachedFile} {d' : Db} (h : Evictable d (l₁ ++ l₂))
    (hfiles : d'.files = setRows CachedFile.id (l₁.map (·.id)) invalidated d.files) :
    Evictable d' l₂ where
  ids := by
    have hmap : (setRows CachedFile.id (l₁.map (·.id)) invalidated d.files).map CachedFile.id =
        d.files.map CachedFile.id := map_id_setRows fun _ _ _ => rfl
    rw [hfiles]
    exact hmap.symm ▸ h.ids
  mem := by
    intro f hf
    obtain ⟨hmem, havailable⟩ := h.mem f (List.mem_append_right l₁ hf)
    refine ⟨?_, havailable⟩
    rw [hfiles]
    refine mem_setRows_of_not_mem hmem fun hi => ?_
    have hapart := h.apart
    rw [List.map_append] at hapart
    exact (List.nodup_append.mp hapart).2.2 f.id hi f.id (List.mem_map_of_mem hf) rfl
  apart := by
    have hapart := h.apart
    rw [List.map_append] at hapart
    exact (List.nodup_append.mp hapart).2.1

lemma Evictable.sublist {l' : List CachedFile} (h : Evictable d l) (hs : l'.Sublist l) :
    Evictable d l' :=
  ⟨h.ids, fun f hf => h.mem f (hs.subset hf), h.apart.sublist (hs.map _)⟩

/-- The rows of a file that is there and available are one row. -/
lemma ids_evicted {f : CachedFile} (h : Evictable d (f :: l)) (i : ℕ) :
    i ∈ files.ids (fun g => g.id = f.id && g.availabilityStatus = .available) d ↔ i ∈ [f.id] := by
  rw [List.mem_singleton]
  constructor
  · intro hi
    obtain ⟨g, hg, rfl⟩ := List.mem_map.mp hi
    have hg' := (List.mem_filter.mp hg).2
    rw [Bool.and_eq_true, decide_eq_true_eq] at hg'
    exact hg'.1
  · rintro rfl
    obtain ⟨hf, havailable⟩ := h.mem f List.mem_cons_self
    exact List.mem_map_of_mem (List.mem_filter.mpr ⟨hf, by simp [havailable]⟩)

variable (policy c a) in
lemma eval_clear (done : List CachedFile → ℤ → Program) (h : Evictable d l) :
    ∃ d', (evict policy c done l a).eval d =
        (done (clear policy c l a).2.1 (clear policy c l a).2.2).eval d' ∧
      d'.files = setRows CachedFile.id ((clear policy c l a).1.map (·.id)) invalidated d.files ∧
      d'.reservations = d.reservations ∧ d'.now = d.now := by
  induction l generalizing a d with
  | nil => exact ⟨d, rfl, setRows_nil.symm, rfl, rfl⟩
  | cons f l ih =>
    rw [evict, clear]
    split
    · exact ⟨d, rfl, setRows_nil.symm, rfl, rfl⟩
    by_cases hb : Beats c f = true
    swap
    · have hbreak : ¬ c.manualPin = true ∧ c.usageScore ≤ f.usageScore := by
        simpa [Beats] using hb
      rw [if_pos hbreak, if_neg hb]
      exact ⟨d, rfl, setRows_nil.symm, rfl, rfl⟩
    have hgo : ¬ (¬ c.manualPin = true ∧ c.usageScore ≤ f.usageScore) := by
      rintro ⟨hpin, hle⟩
      simp [Beats, hpin, not_lt.mpr hle] at hb
    rw [if_neg hgo, if_pos hb, Table.eval_update]
    obtain ⟨hf, havailable⟩ := h.mem f List.mem_cons_self
    have hrow : ∀ g ∈ (files.matching (fun g => g.id = f.id && g.availabilityStatus = .available)
        d).map invalidated, g = invalidated f := by
      intro g hg
      obtain ⟨x, hx, rfl⟩ := List.mem_map.mp hg
      obtain ⟨hx, hcond⟩ := List.mem_filter.mp hx
      rw [Bool.and_eq_true, decide_eq_true_eq] at hcond
      rw [eq_of_id_eq h.ids hx hf hcond.1]
    have hfiles : setRows CachedFile.id
        (files.ids (fun g => g.id = f.id && g.availabilityStatus = .available) d) invalidated
        d.files = setRows CachedFile.id ([f].map (·.id)) invalidated d.files :=
      setRows_congr fun x _ => ids_evicted h x.id
    split
    · next hnil =>
      have hmem : f ∈ files.matching
          (fun g => g.id = f.id && g.availabilityStatus = .available) d :=
        List.mem_filter.mpr ⟨hf, by simp [havailable]⟩
      rw [List.map_eq_nil_iff.mp hnil] at hmem
      cases hmem
    · next g rest hcons =>
      have hg : g = invalidated f := hrow g (hcons ▸ List.mem_cons_self)
      subst hg
      have hleft : Evictable (Db.addCacheDeletionJobs [⟨f.id, f.objectKey, .pending, d.now⟩]
          (files.put (setRows CachedFile.id
            (files.ids (fun g => g.id = f.id && g.availabilityStatus = .available) d) invalidated
            d.files) d)) l :=
        h.left (List.singleton_append ▸ hfiles)
      obtain ⟨d', he, hfiles', hreservations, hnow⟩ := ih (a := a - f.sizeBytes) hleft
      refine ⟨d', he, ?_, hreservations, hnow⟩
      exact hfiles'.trans ((congrArg _ hfiles).trans
        (setRows_setRows (fun _ => rfl) fun _ => rfl))

/-- The reservations that the turns add. -/
def granted (q : Submit) (now : ℕ) (ts : List Turn) : List Reservation :=
  (ts.filter (·.approved)).map fun t => newReservation q t.candidate now

/-- Files that are evicted in two steps are evicted. -/
lemma setRows_evicted {l₁ l₂ : List CachedFile} {rows rows' rows'' : List CachedFile}
    (h : rows' = setRows CachedFile.id (l₁.map (·.id)) invalidated rows)
    (h' : rows'' = setRows CachedFile.id (l₂.map (·.id)) invalidated rows') :
    rows'' = setRows CachedFile.id ((l₁ ++ l₂).map (·.id)) invalidated rows := by
  rw [h', h, List.map_append]
  exact setRows_setRows (fun _ => rfl) fun _ => rfl

lemma eval_reserve (done : Option Reservation → Program) : (reserve q c done).eval d =
    if conflicts q c d.reservations then (done none).eval d
    else (done (some (newReservation q c d.now))).eval
      { d with reservations := d.reservations ++ [newReservation q c d.now] } := by
  rw [reserve, eval_clock, Table.eval_insert]
  rfl

variable (q policy) in
lemma eval_course (candidates : List Candidate) {s : Stock} (approved : List Reservation)
    (h : Evictable d s.evictable) (htaken : s.taken = d.reservations) (hnow : d.now = now) :
    ∃ d', (approveAll q policy candidates s.evictable s.allocated approved).eval d =
        (.ok (.submitted (newBatch q)
          (approved ++ granted q now (course q policy now candidates s))), d') ∧
      d'.files = setRows CachedFile.id
        (((course q policy now candidates s).flatMap (·.evicted)).map (·.id)) invalidated
        d.files := by
  induction candidates generalizing s d approved with
  | nil => exact ⟨d, by rw [course, granted, List.filter_nil, List.map_nil, List.append_nil]; rfl,
      setRows_nil.symm⟩
  | cons c candidates ih =>
    rw [approveAll_cons, course, turn]
    by_cases hp : Permits policy c
    swap
    · rw [if_neg hp, if_neg hp]
      exact ih approved h htaken hnow
    rw [if_pos hp, if_pos hp]
    obtain ⟨d₁, he, hfiles, hreservations, hnow₁⟩ :=
      eval_clear policy c s.allocated (settle q policy c candidates approved) h
    have hleft := (h.sublist clear_sublist).left hfiles
    have hconflicts : conflicts q c s.taken = conflicts q c d₁.reservations := by
      rw [htaken, hreservations]
    rw [he, settle]
    dsimp only
    by_cases hfits : (clear policy c s.evictable s.allocated).2.2 + c.sizeBytes ≤ policy.quotaBytes
    swap
    · rw [if_pos (not_le.mp hfits), if_neg fun hfine => hfits hfine.1]
      obtain ⟨d', he', hfiles'⟩ := ih (s := ⟨_, _, s.taken⟩) approved hleft
        (htaken.trans hreservations.symm) (hnow₁.trans hnow)
      exact ⟨d', he', setRows_evicted hfiles hfiles'⟩
    have hrow : newReservation q c d₁.now = newReservation q c now := by rw [hnow₁, hnow]
    rw [if_neg (not_lt.mpr hfits), eval_reserve, ← hconflicts, hrow]
    by_cases hc : conflicts q c s.taken = false
    · rw [if_neg (Bool.eq_false_iff.mp hc), if_pos ⟨hfits, hc⟩]
      obtain ⟨d', he', hfiles'⟩ := ih
        (s := ⟨(clear policy c s.evictable s.allocated).2.1,
          (clear policy c s.evictable s.allocated).2.2 + c.sizeBytes,
          s.taken ++ [newReservation q c now]⟩)
        (d := { d₁ with reservations := d₁.reservations ++ [newReservation q c now] })
        (approved ++ [newReservation q c now]) ⟨hleft.ids, hleft.mem, hleft.apart⟩
        (by rw [htaken, hreservations]) (hnow₁.trans hnow)
      refine ⟨d', ?_, setRows_evicted hfiles hfiles'⟩
      rw [List.append_assoc] at he'
      exact he'
    · rw [if_pos ((Bool.not_eq_false _).mp hc), if_neg fun hfine => hc hfine.2]
      obtain ⟨d', he', hfiles'⟩ := ih (s := ⟨_, _, s.taken⟩) approved hleft
        (htaken.trans hreservations.symm) (hnow₁.trans hnow)
      exact ⟨d', he', setRows_evicted hfiles hfiles'⟩

/-- The turns of a request are those of its candidates. -/
lemma accounts_submit {env : Environment} {b : Backend} (ha : Admitted env q policy d)
    (hids : (d.files.map (·.id)).Nodup) (hbatch : ∀ x ∈ d.batches, x.id ≠ q.newId)
    (hkey : ∀ x ∈ d.batches, hasKey q x = false) :
    Accounts q d (course q policy d.now (turns q) (stock q d)) ((submit env b q).eval d) := by
  have hperm : (evictables q d).Perm
      (d.files.filter fun f => isAvailable q.roomId f && !f.manualPin) :=
    List.perm_insertionSort _ _
  have hevictable : Evictable { d with batches := d.batches ++ [newBatch q] }
      (stock q d).evictable := by
    refine ⟨hids, fun f hf => ?_, ?_⟩
    · obtain ⟨hf, hcond⟩ := List.mem_filter.mp (hperm.mem_iff.mp hf)
      refine ⟨hf, ?_⟩
      simp only [isAvailable, Bool.and_eq_true, decide_eq_true_eq] at hcond
      exact hcond.1.2
    · exact ((hperm.map _).nodup_iff).mpr (hids.sublist (List.filter_sublist.map _))
  obtain ⟨d', he, hfiles⟩ := eval_course q policy (turns q)
    (s := stock q d) [] hevictable rfl rfl
  rw [eval_submit ha hbatch hkey]
  exact ⟨congrArg Prod.fst he, (congrArg (fun x => x.2.files) he).trans hfiles⟩

/-- A request that is not served as a new batch evicts nothing. -/
lemma files_submit {env : Environment} {b : Backend} (h : ∀ policy, Admitted env q policy d →
    ∃ x ∈ d.batches, x.id = q.newId ∨ hasKey q x = true) :
    ((submit env b q).eval d).2.files = d.files := by
  rw [submit, enabled]
  split
  swap
  · rfl
  next henabled =>
  rw [assertConfigured]
  split
  swap
  · rfl
  next hstorage =>
  rw [room, eval_select]
  split
  · rfl
  next r hr =>
  split
  · rfl
  next hdevice =>
  rw [lockRoom, Txn.eval_lock, lockConnection, eval_selectFor]
  split
  · rfl
  next v hv =>
  rw [eval_selectFor]
  split
  · rfl
  next r' hr' =>
  rw [eval_select]
  split
  · split
    · rfl
    · rfl
  rw [submitBatch, Table.eval_insert]
  split
  · rfl
  next hany =>
  dsimp only
  rw [eval_select]
  split
  · rfl
  next policy hpolicy =>
  -- a batch that is in conflict is not there
  obtain ⟨x, hx, hconflict⟩ := h policy ⟨henabled, hstorage, ⟨r, hr, not_not.mp hdevice⟩,
    hv ▸ rfl, hr' ▸ rfl, hpolicy⟩
  refine absurd (List.any_eq_true.mpr ⟨x, hx, ?_⟩) hany
  rw [Bool.or_eq_true, decide_eq_true_eq]
  exact hconflict

/-- **What a request evicts** has its purpose exactly if every turn is worthwhile; a request that
is not served as a new batch evicts nothing. -/
theorem evictions_purposeful_iff (env : Environment) (b : Backend)
    (hids : (d.files.map (·.id)).Nodup) :
    (∀ policy, Admitted env q policy d → (∀ x ∈ d.batches, x.id ≠ q.newId) →
      (∀ x ∈ d.batches, hasKey q x = false) →
      Accounts q d (course q policy d.now (turns q) (stock q d)) ((submit env b q).eval d) ∧
        (Purposeful policy (course q policy d.now (turns q) (stock q d)) ↔
          AllWorthwhile q policy d.now (turns q) (stock q d))) ∧
    ((∀ policy, Admitted env q policy d →
        ∃ x ∈ d.batches, x.id = q.newId ∨ hasKey q x = true) →
      ((submit env b q).eval d).2.files = d.files) :=
  ⟨fun _ ha hbatch hkey => ⟨accounts_submit ha hids hbatch hkey, purposeful_iff _ _⟩,
    files_submit⟩

/-- Seventy bytes of a hundred are in use by a file that is seldom used and one that often is. -/
def cachedTables : Db :=
  let f : CachedFile := ⟨11, 3, "old.txt", "1", "h0", 1, false, "cache/1/3/11", 10, "digest", "aes",
    .available, .verifiedCurrent, 0, 0, none⟩
  { sampleTables with files := [f, { f with
    id := 12, sourceRelativePath := "much.txt", usageScore := 50, sizeBytes := 60 }] }

/-- A candidate with the given size and score. -/
def sampleRequest (sizeBytes : ℕ) (usageScore : ℤ) : Submit :=
  ⟨1, 9, "k", 3, [⟨2, "a.txt", "1", "h1", sizeBytes, usageScore, false⟩], "digest", 1⟩

lemma admitted_request (sizeBytes : ℕ) (usageScore : ℤ) : Admitted sampleEnvironment
    (sampleRequest sizeBytes usageScore) ⟨3, true, 100, 50, [], []⟩ cachedTables where
  enabled := rfl
  storage := rfl
  room := ⟨⟨3, 1, 9, true⟩, rfl, rfl⟩
  device := rfl
  deviceRoom := rfl
  policy := rfl

/-- The file that is seldom used makes room for a candidate of forty bytes. -/
theorem evictions_purposeful_iff_sample : Purposeful ⟨3, true, 100, 50, [], []⟩
    (course (sampleRequest 40 20) ⟨3, true, 100, 50, [], []⟩ 0 (turns (sampleRequest 40 20))
      (stock (sampleRequest 40 20) cachedTables)) := by
  refine (((evictions_purposeful_iff sampleEnvironment sampleBackend (by decide +kernel)).1 _
    (admitted_request 40 20) (fun _ h => absurd h List.not_mem_nil)
    fun _ h => absurd h List.not_mem_nil).2).mpr ⟨fun _ _ _ => ?_, trivial⟩
  decide +kernel

/-- A candidate of fifty bytes drives it out and does not fit all the same. -/
theorem not_evictions_purposeful : ¬ ∀ env b q d, ((submit env b q).eval d).1 =
    .ok (.submitted (newBatch q) []) → ((submit env b q).eval d).2.files = d.files := by
  intro h
  have hcode : ((submit sampleEnvironment sampleBackend (sampleRequest 50 20)).eval
      cachedTables).1 = .ok (.submitted (newBatch (sampleRequest 50 20)) []) := by rfl
  have hfiles := congrArg (List.map (·.availabilityStatus)) (h _ _ _ _ hcode)
  have hgone : (((submit sampleEnvironment sampleBackend (sampleRequest 50 20)).eval
      cachedTables).2.files).map (·.availabilityStatus) = [.invalidated, .available] := by rfl
  rw [hgone] at hfiles
  cases hfiles

end MouseKeeper.Storage.SmartCache
