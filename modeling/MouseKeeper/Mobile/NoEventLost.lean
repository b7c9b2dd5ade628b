import MouseKeeper.Mobile.Realtime

/-!
When the cursor of the mobile app stays behind what has been applied.
-/

namespace MouseKeeper.Mobile.Realtime

open MouseKeeper.Machine

namespace World

variable {complete : ℕ → Bool} {w w' : World} {k : ℕ}

/-- What a replay of the current session relies on. -/
def ReplayOk (w : World) : Replay → Prop
  | .reading => True
  | .fetching c => c ≤ w.position
  | .page c rest _ _ => (∀ k, 0 < k → k ≤ c → w.Covered k) ∧ ∃ n, rest = List.range' (c + 1) n
  | .revising c _ _ => c ≤ w.position

/-- Everything up to the cursor is covered. -/
structure Safe (w : World) : Prop where
  covered : ∀ k, 0 < k → k ≤ w.position → w.Covered k
  replay : ∀ r, w.replays w.generation = some r → w.ReplayOk r
  fresh : ∀ g, w.generation < g → w.replays g = none

/-! ### What stays covered -/

/-- An event stays covered when its handler keeps it in hand or presents it. -/
lemma Covered.mono (h : w.Covered k) (ha : w.applied ⊆ w'.applied)
    (hl : ∀ i, w.lives i = some ⟨w.generation, k, true⟩ → w'.Covered k)
    (hr : ∀ r, w.replays w.generation = some r → k ∈ r.pending → w'.Covered k) :
    w'.Covered k := by
  rcases h with h | ⟨i, hi⟩ | ⟨r, hrep, hk⟩
  · exact .inl (ha h)
  · exact hl i hi
  · exact hr r hrep hk

lemma covered_of_live {i : ℕ} (h : w.lives i = some ⟨w.generation, k, true⟩) : w.Covered k :=
  .inr (.inl ⟨i, h⟩)

lemma covered_of_replay {r : Replay} (h : w.replays w.generation = some r)
    (hk : k ∈ r.pending) : w.Covered k :=
  .inr (.inr ⟨r, h, hk⟩)

/-- Changing the handler of a live event that has not moved the cursor covers what it did. -/
lemma Covered.setLive {i : ℕ} {t : Option Live} (h : w.Covered k)
    (hi : w.lives i ≠ some ⟨w.generation, k, true⟩) : (w.setLive i t).Covered k := by
  refine h.mono (fun _ hx => hx) (fun j hj => ?_) fun r hr hk => covered_of_replay hr hk
  have hne : j ≠ i := fun hji => hi (hji ▸ hj)
  refine covered_of_live (i := j) ?_
  simp only [World.setLive, Function.update_of_ne hne]
  exact hj

/-- Changing the replay of a session covers what it did, if the pending events stay. -/
lemma Covered.setReplay {g : ℕ} {t : Option Replay} (h : w.Covered k)
    (hg : g = w.generation → ∀ r, w.replays g = some r → k ∈ r.pending →
      ∃ r', t = some r' ∧ k ∈ r'.pending) : (w.setReplay g t).Covered k := by
  refine h.mono (fun _ hx => hx) (fun j hj => covered_of_live hj) fun r hr hk => ?_
  by_cases hgen : g = w.generation
  · subst hgen
    obtain ⟨r', rfl, hk'⟩ := hg rfl r hr hk
    exact covered_of_replay (by simp [World.setReplay]) hk'
  · refine covered_of_replay (r := r) ?_ hk
    simp only [World.setReplay, Function.update_of_ne (Ne.symm hgen)]
    exact hr

/-- More applied events, the same handlers. -/
lemma Covered.apply {l : List ℕ} (h : w.Covered k) :
    ({ w with applied := l ++ w.applied } : World).Covered k :=
  h.mono (fun _ hx => List.mem_append_right _ hx) (fun _ hj => covered_of_live hj)
    fun _ hr hk => covered_of_replay hr hk

lemma ReplayOk.mono {r : Replay} (h : w.ReplayOk r) (hp : w.position ≤ w'.position)
    (hc : ∀ k, w.Covered k → w'.Covered k) : w'.ReplayOk r := by
  cases r with
  | reading => trivial
  | fetching c => exact Nat.le_trans h hp
  | page c rest last pending => exact ⟨fun k h0 hk => hc k (h.1 k h0 hk), h.2⟩
  | revising c last pending => exact Nat.le_trans h hp

/-- A world in which the cursor is where it was and all that was covered still is. -/
lemma Safe.mono (h : w.Safe) (hp : w'.position = w.position)
    (hc : ∀ k, w.Covered k → w'.Covered k) (hg : w'.generation = w.generation)
    (hr : ∀ r, w'.replays w.generation = some r →
      w.replays w.generation = some r ∨ w'.ReplayOk r)
    (hf : ∀ g, w.generation < g → w'.replays g = none) : w'.Safe where
  covered k h0 hk := hc k (h.covered k h0 (hp ▸ hk))
  replay r hrep := by
    rw [hg] at hrep
    rcases hr r hrep with hrep | hok
    · exact (h.replay r hrep).mono (Nat.le_of_eq hp.symm) hc
    · exact hok
  fresh g hlt := hf g (hg ▸ hlt)

/-! ### The steps -/

lemma Safe.setLive {i : ℕ} {t : Option Live} (h : w.Safe)
    (hi : ∀ k, w.lives i ≠ some ⟨w.generation, k, true⟩) : (w.setLive i t).Safe :=
  h.mono rfl (fun k hk => hk.setLive (hi k)) rfl (fun _ hr => .inl hr) h.fresh

/-- The replay of a session other than the current one, or one without pending events. -/
lemma Safe.setReplay {g : ℕ} {t : Option Replay} (h : w.Safe) (hle : g ≤ w.generation)
    (hp : g = w.generation → ∀ r, w.replays g = some r → ∀ k ∈ r.pending,
      ∃ r', t = some r' ∧ k ∈ r'.pending)
    (ht : g = w.generation → ∀ r, t = some r → (w.setReplay g t).ReplayOk r) :
    (w.setReplay g t).Safe := by
  refine h.mono rfl (fun k hk => hk.setReplay fun hg r hr => hp hg r hr k) rfl
    (fun r hr => ?_) fun g' hg' => ?_
  · by_cases hg : g = w.generation
    · refine .inr (ht hg r ?_)
      rw [hg] at hr
      simpa [World.setReplay] using hr
    · simp only [World.setReplay, Function.update_of_ne (Ne.symm hg)] at hr
      exact .inl hr
  · have hne : g' ≠ g := by omega
    simp only [World.setReplay, Function.update_of_ne hne]
    exact h.fresh g' hg'

/-- A replay that exists belongs to a session that has begun. -/
lemma Safe.generation_le {g : ℕ} {r : Replay} (h : w.Safe) (hr : w.replays g = some r) :
    g ≤ w.generation := by
  by_contra hlt
  rw [h.fresh g (by omega)] at hr
  cases hr

/-- The end of a session. -/
lemma Safe.endSession (h : w.Safe) (hc : ∀ k, k ≤ w.position → w.InHand k → k ∈ w.applied)
    {lives : ℕ → Option Live} {replays : ℕ → Option Replay} {online : Bool}
    (hr : ∀ g, w.replays g = none → replays g = none) :
    ({ w with generation := w.generation + 1, online, lives, replays } : World).Safe where
  covered k h0 hk := by
    rcases h.covered k h0 hk with ha | hh
    · exact .inl ha
    · exact .inl (hc k hk hh)
  replay r hrep := by
    have hn : replays (w.generation + 1) = none := hr _ (h.fresh _ (Nat.lt_succ_self _))
    cases hn.symm.trans hrep
  fresh g hg := hr g (h.fresh g (Nat.lt_of_succ_lt hg))

lemma position_le_of_not_reached {sequence : ℕ} (h : ¬ w.Reached sequence) :
    w.position ≤ sequence := by
  unfold Reached at h
  unfold position
  cases hc : w.cursor with
  | none => exact Nat.zero_le _
  | some c =>
    simp only [hc, Option.mem_def, Option.some.injEq, exists_eq_left', not_le] at h
    exact Nat.le_of_lt h

lemma le_position_of_reached {sequence : ℕ} (h : w.Reached sequence) :
    sequence ≤ w.position := by
  obtain ⟨c, hc, hle⟩ := h
  rw [position, Option.mem_def.mp hc]
  exact hle

lemma Safe.advance {i sequence : ℕ} (h : w.Safe)
    (hi : w.lives i = some ⟨w.generation, sequence, false⟩) (hn : ¬ w.Reached sequence)
    (hc : ∀ k, w.position < k → k < sequence → w.Covered k) :
    ((w.writeCursor sequence).setLive i (some ⟨w.generation, sequence, true⟩)).Safe := by
  have hcov : ∀ k, w.Covered k →
      ((w.writeCursor sequence).setLive i (some ⟨w.generation, sequence, true⟩)).Covered k :=
    fun k hk => Covered.setLive (w := w.writeCursor sequence)
      (hk.mono (fun _ hx => hx) (fun _ hj => covered_of_live hj)
        fun _ hr hk => covered_of_replay hr hk)
      (by simp [World.writeCursor, hi])
  refine ⟨fun k h0 hk => ?_, fun r hr => ?_, h.fresh⟩
  · change k ≤ sequence at hk
    by_cases hk' : k ≤ w.position
    · exact hcov k (h.covered k h0 hk')
    · rcases Nat.lt_or_eq_of_le hk with hlt | rfl
      · exact hcov k (hc k (by omega) hlt)
      · exact covered_of_live (i := i) (by simp [World.setLive, World.writeCursor])
  · exact (h.replay r hr).mono (position_le_of_not_reached hn) hcov

lemma Safe.present {i sequence : ℕ} (h : w.Safe)
    (hi : w.lives i = some ⟨w.generation, sequence, true⟩) :
    ({ w.setLive i none with applied := sequence :: w.applied } : World).Safe := by
  refine h.mono rfl (fun k hk => ?_) rfl (fun _ hr => .inl hr) h.fresh
  by_cases hks : k = sequence
  · exact .inl (by simp [hks])
  · have hne : w.lives i ≠ some ⟨w.generation, k, true⟩ := by
      rw [hi]
      simpa using Ne.symm hks
    exact (hk.setLive (t := none) hne).apply (l := [sequence])

lemma Safe.store {c : ℕ} {last : Bool} {pending : List ℕ} (h : w.Safe)
    (hr : w.replays w.generation = some (.page c [] last pending)) (hn : ¬ w.Reached c) :
    ((w.writeCursor c).setReplay w.generation (some (.revising c last pending))).Safe := by
  have hcov : ∀ k, w.Covered k → ((w.writeCursor c).setReplay w.generation
      (some (.revising c last pending))).Covered k := fun k hk =>
    Covered.setReplay (w := w.writeCursor c)
      (hk.mono (fun _ hx => hx) (fun _ hj => covered_of_live hj)
        fun _ hr hk => covered_of_replay hr hk)
      (fun _ r hr' hkp => by
        rw [show (w.writeCursor c).replays w.generation = w.replays w.generation from rfl, hr,
          Option.some.injEq] at hr'
        exact ⟨_, rfl, by rw [← hr'] at hkp; exact hkp⟩)
  refine ⟨fun k h0 hk => hcov k ((h.replay _ hr).1 k h0 hk), fun r hr' => ?_, fun g hg => ?_⟩
  · have : some (Replay.revising c last pending) = some r := by
      simpa [World.setReplay, World.writeCursor] using hr'
    cases this
    exact Nat.le_refl c
  · have hne : g ≠ w.generation := Nat.ne_of_gt hg
    simp only [World.setReplay, Function.update_of_ne hne]
    exact h.fresh g hg

lemma Safe.event {c x : ℕ} {rest : List ℕ} {last : Bool} {pending pending' l : List ℕ}
    (h : w.Safe) (hr : w.replays w.generation = some (.page c (x :: rest) last pending))
    (hsub : pending ⊆ pending') (hx : x ∈ l ∨ x ∈ pending') :
    ({ w.setReplay w.generation (some (.page (max c x) rest last pending')) with
      applied := l ++ w.applied } : World).Safe := by
  let v : World := w.setReplay w.generation (some (.page (max c x) rest last pending'))
  have hcov : ∀ k, w.Covered k → ({ v with applied := l ++ v.applied } : World).Covered k := by
    intro k hk
    refine Covered.apply (w := v) (hk.setReplay fun _ r hr' hkp => ⟨_, rfl, ?_⟩)
    rw [hr, Option.some.injEq] at hr'
    rw [← hr'] at hkp
    exact hsub hkp
  have hxc : ({ v with applied := l ++ v.applied } : World).Covered x := by
    rcases hx with hx | hx
    · exact .inl (List.mem_append_left _ hx)
    · exact covered_of_replay (r := .page (max c x) rest last pending')
        (by simp [v, World.setReplay]) hx
  obtain ⟨hc, n, hn⟩ := h.replay _ hr
  refine h.mono rfl hcov rfl (fun r hr' => .inr ?_) fun g hg => ?_
  · have : some (Replay.page (max c x) rest last pending') = some r := by
      simpa [World.setReplay] using hr'
    cases this
    cases n with
    | zero => cases hn
    | succ n =>
      rw [List.range'_succ, List.cons.injEq] at hn
      obtain ⟨rfl, hrest⟩ := hn
      have hmax : max c (c + 1) = c + 1 := by omega
      refine ⟨fun k h0 hk => ?_, n, by rw [hmax]; exact hrest⟩
      rcases Nat.lt_or_ge c k with hlt | hle
      · obtain rfl : k = c + 1 := by omega
        exact hxc
      · exact hcov k (hc k h0 hle)
  · have hne : g ≠ w.generation := Nat.ne_of_gt hg
    simp only [World.setReplay, Function.update_of_ne hne]
    exact h.fresh g hg

lemma Safe.revise {c : ℕ} {last : Bool} {pending : List ℕ} (h : w.Safe)
    (hr : w.replays w.generation = some (.revising c last pending)) :
    ({ w.setReplay w.generation (if last then none else some (.fetching c)) with
      applied := pending ++ w.applied } : World).Safe := by
  have hcov : ∀ k, w.Covered k → ({ w.setReplay w.generation
      (if last then none else some (.fetching c)) with
        applied := pending ++ w.applied } : World).Covered k := by
    intro k hk
    refine hk.mono (fun _ hx => List.mem_append_right _ hx) (fun _ hj => covered_of_live hj)
      fun r hr' hkp => .inl (List.mem_append_left _ ?_)
    rw [hr, Option.some.injEq] at hr'
    rw [← hr'] at hkp
    exact hkp
  refine h.mono rfl hcov rfl (fun r hr' => .inr ?_) fun g hg => ?_
  · have ht : (if last then none else some (Replay.fetching c)) = some r := by
      simpa [World.setReplay] using hr'
    split at ht
    · cases ht
    · cases ht
      exact h.replay _ hr
  · have hne : g ≠ w.generation := Nat.ne_of_gt hg
    simp only [World.setReplay, Function.update_of_ne hne]
    exact h.fresh g hg

/-- **One step keeps everything up to the cursor covered.** -/
theorem Safe.step {l : Label} (h : w.Safe) (hc : w.Clear l)
    (hs : w.step complete l = some w') : w'.Safe := by
  cases l with
  | publish =>
    cases hs
    exact h.mono rfl (fun k hk => hk.mono (fun _ hx => hx) (fun _ hj => covered_of_live hj)
      fun _ hr hk => covered_of_replay hr hk) rfl (fun _ hr => .inl hr) h.fresh
  | connect =>
    simp only [World.step, Option.ite_none_left_eq_some, Option.some.injEq] at hs
    obtain ⟨-, rfl⟩ := hs
    exact h.endSession hc fun _ hg => hg
  | disconnect =>
    cases hs
    exact h.endSession hc fun _ hg => hg
  | kill =>
    cases hs
    exact h.endSession hc fun _ _ => rfl
  | receive i sequence =>
    simp only [World.step, Option.ite_none_right_eq_some, Option.some.injEq] at hs
    obtain ⟨⟨-, hi, -, -⟩, rfl⟩ := hs
    exact h.setLive fun k => by simp [hi]
  | advance i =>
    simp only [World.step] at hs
    split at hs
    · rename_i g sequence hi
      split at hs
      · cases hs
        exact h.setLive fun k => by simp [hi]
      · rename_i hn
        cases hs
        simp only [not_or, not_not] at hn
        obtain ⟨rfl, hn⟩ := hn
        exact h.advance hi hn (hc sequence hi)
    · cases hs
  | present i =>
    simp only [World.step] at hs
    split at hs
    · rename_i g sequence hi
      split at hs
      · rename_i hg
        cases hs
        exact h.setLive fun k => by simp [hi, hg]
      · rename_i hg
        cases hs
        obtain rfl : g = w.generation := not_not.mp hg
        exact h.present hi
    · cases hs
  | startReplay =>
    simp only [World.step, Option.ite_none_right_eq_some, Option.some.injEq] at hs
    obtain ⟨⟨-, hn⟩, rfl⟩ := hs
    exact h.setReplay (Nat.le_refl _) (fun _ r hr => by rw [hn] at hr; cases hr)
      fun _ r hr => by cases hr; trivial
  | read g =>
    simp only [World.step] at hs
    split at hs
    · rename_i hr
      split at hs <;> cases hs
      · exact h.setReplay (h.generation_le hr) (fun hg => absurd hg (by assumption))
          fun hg => absurd hg (by assumption)
      · refine h.setReplay (h.generation_le hr) (fun _ r hr' => ?_) fun _ r hr' => ?_
        · rw [hr] at hr'
          cases hr'
          exact fun k hk => by cases hk
        · cases hr'
          exact Nat.le_refl _
    · cases hs
  | fetch g =>
    simp only [World.step] at hs
    split at hs
    · rename_i c hr
      split at hs <;> cases hs
      · refine h.setReplay (h.generation_le hr) (fun _ r hr' => ?_) fun _ r hr' => by cases hr'
        rw [hr] at hr'
        cases hr'
        exact fun k hk => by cases hk
      · refine h.setReplay (h.generation_le hr) (fun _ r hr' => ?_) fun hg r hr' => ?_
        · rw [hr] at hr'
          cases hr'
          exact fun k hk => by cases hk
        · cases hr'
          rw [hg] at hr
          refine ⟨fun k h0 hk => Covered.setReplay
            (h.covered k h0 (Nat.le_trans hk (h.replay _ hr))) ?_, _, rfl⟩
          intro _ r hr' hkp
          rw [hg, hr] at hr'
          cases hr'
          cases hkp
    · cases hs
  | fetchFailed g =>
    simp only [World.step] at hs
    split at hs
    · rename_i c hr
      cases hs
      refine h.setReplay (h.generation_le hr) (fun _ r hr' => ?_) fun _ r hr' => by cases hr'
      rw [hr] at hr'
      cases hr'
      exact fun k hk => by cases hk
    · cases hs
  | event g =>
    simp only [World.step] at hs
    split at hs
    · rename_i c x rest last pending hr
      split at hs
      · rename_i hg
        cases hs
        exact h.setReplay (h.generation_le hr) (fun hg' => absurd hg' hg)
          fun hg' => absurd hg' hg
      · rename_i hg
        obtain rfl : g = w.generation := not_not.mp hg
        split at hs <;> cases hs
        · exact h.event (l := [x]) hr (List.Subset.refl _) (.inl (by simp))
        · exact h.event (l := []) hr (List.subset_cons_self _ _) (.inr (by simp))
    · cases hs
  | store g =>
    simp only [World.step] at hs
    split at hs
    · rename_i c last pending hr
      split at hs
      · rename_i hg
        cases hs
        exact h.setReplay (h.generation_le hr) (fun hg' => absurd hg' hg)
          fun hg' => absurd hg' hg
      · rename_i hg
        obtain rfl : g = w.generation := not_not.mp hg
        split at hs <;> rename_i hre <;> cases hs
        · refine h.setReplay (Nat.le_refl _) (fun _ r hr' k hk => ⟨_, rfl, ?_⟩) fun _ r hr' => ?_
          · rw [hr] at hr'
            cases hr'
            exact hk
          · cases hr'
            exact le_position_of_reached hre
        · exact h.store hr hre
    · cases hs
  | revise g =>
    simp only [World.step] at hs
    split at hs
    · rename_i c last pending hr
      split at hs
      · rename_i hg
        cases hs
        exact h.setReplay (h.generation_le hr) (fun hg' => absurd hg' hg)
          fun hg' => absurd hg' hg
      · rename_i hg
        cases hs
        obtain rfl : g = w.generation := not_not.mp hg
        exact h.revise hr
    · cases hs

lemma Safe.initial : World.initial.Safe where
  covered k h0 hk := absurd hk (Nat.not_le.mpr h0)
  replay r hr := by cases hr
  fresh _ _ := rfl

end World

/-- Two events are published before the app connects and replays them. -/
def sampleLabels : List Label :=
  [.connect, .publish, .publish, .startReplay, .read 1, .fetch 1, .event 1, .event 1, .store 1,
    .revise 1]

/-- The third event arrives live while the first two have been missed; the replay that
follows asks for what comes after the third. -/
def gapLabels : List Label :=
  [.publish, .publish, .publish, .connect, .receive 0 3, .advance 0, .present 0, .startReplay,
    .read 1, .fetch 1]

end MouseKeeper.Mobile.Realtime
