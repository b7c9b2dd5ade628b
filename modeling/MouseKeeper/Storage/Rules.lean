import MouseKeeper.Storage.Tables

/-!
How the statements of the storage transactions keep a protocol.
-/

namespace MouseKeeper.Storage

open MouseKeeper.ReadCommitted

variable {Q R α : Type} {P : Protocol Db Lock} {ok : Cond Q Db Lock Code R} {post : Post Q Db R}
  {q : Q} {held : List Lock} {f : Db → Db} {d : Db}

lemma keeps_clock {next : ℕ → Program R}
    (h : ∀ d', P.rely held d d' → P.inv d' → (next (f d').now).Keeps P ok post q held f d') :
    (clock next).Keeps P ok post q held f d :=
  fun d' hd hi _ => h d' hd hi

lemma keeps_lock {locks : Db → List Lock} {next : Db → Program R}
    (h : ∀ d', P.rely held d d' → P.inv d' →
      (next (f d')).Keeps P ok post q (locks (f d') ++ held) f d') :
    (Txn.lock locks next).Keeps P ok post q held f d :=
  fun d' hd hi _ => h d' hd hi

lemma keeps_select {row : Db → Option α} {next : Option α → Program R}
    (h : ∀ d', P.rely held d d' → P.inv d' → (next (row (f d'))).Keeps P ok post q held f d') :
    (select row next).Keeps P ok post q held f d :=
  fun d' hd hi _ => h d' hd hi

lemma keeps_selectFor {row : Db → Option α} {locks : α → List Lock}
    {next : Option α → Program R}
    (h : ∀ d', P.rely held d d' → P.inv d' →
      (next (row (f d'))).Keeps P ok post q ((row (f d')).elim [] locks ++ held) f d') :
    (selectFor row locks next).Keeps P ok post q held f d :=
  fun d' hd hi _ => h d' hd hi

lemma keeps_selectAllFor {T : Table α} {cond : α → Bool} {next : List α → Program R}
    (h : ∀ d', P.rely held d d' → P.inv d' → (next (T.matching cond (f d'))).Keeps P ok post q
      ((T.ids cond (f d')).flatMap T.locks ++ held) f d') :
    (T.selectAllFor cond next).Keeps P ok post q held f d :=
  fun d' hd hi _ => h d' hd hi

lemma keeps_update {T : Table α} {cond : α → Bool} {set : α → α} {next : List α → Program R}
    (h : ∀ d', P.rely held d d' → P.inv d' →
      (next ((T.matching cond (f d')).map set)).Keeps P ok post q
        ((T.ids cond (f d')).flatMap T.locks ++ held)
        (fun x => T.put (setRows T.id (T.ids cond (f d')) set (T.rows (f x))) (f x)) d') :
    (T.update cond set next).Keeps P ok post q held f d :=
  fun d' hd hi _ => h d' hd hi

/-- The row goes in, or there is one already that it conflicts with. -/
lemma keeps_insert {T : Table α} {conflicts : α → Bool} {row : α} {keys : List Lock}
    {next : Bool → Program R}
    (hnew : ∀ d', P.rely held d d' → P.inv d' → (∀ x ∈ T.rows (f d'), conflicts x = false) →
      (next true).Keeps P ok post q (T.locks (T.id row) ++ keys ++ held)
        (fun x => T.put (T.rows (f x) ++ [row]) (f x)) d')
    (hold : ∀ d', P.rely held d d' → P.inv d' → (∃ x ∈ T.rows (f d'), conflicts x) →
      (next false).Keeps P ok post q held f d') :
    (T.insert conflicts row keys next).Keeps P ok post q held f d := by
  intro d' hd hi _
  by_cases hc : (T.rows (f d')).any conflicts
  · have h := hold d' hd hi (List.any_eq_true.mp hc)
    simpa only [hc, if_true, List.nil_append, Bool.not_true] using h
  · have hno : ∀ x ∈ T.rows (f d'), conflicts x = false := by
      simpa only [Bool.not_eq_true, List.any_eq_false] using hc
    have h := hnew d' hd hi hno
    rw [Bool.not_eq_true] at hc
    simpa only [hc, Bool.false_eq_true, if_false, Bool.not_false] using h

lemma keeps_modify {change : Db → Db} {next : Program R}
    (h : ∀ d', P.rely held d d' → P.inv d' →
      next.Keeps P ok post q held (fun x => change (f x)) d') :
    (modify change next).Keeps P ok post q held f d :=
  fun d' hd hi _ => h d' hd hi

lemma keeps_lockConnection {b : Backend} {userId deviceId roomId : ℕ}
    {noDevice noRoom next : Program R}
    (hnoDevice : ∀ d', P.rely held d d' → P.inv d' → (f d').device userId deviceId = none →
      noDevice.Keeps P ok post q held f d')
    (h : ∀ v d', P.rely held d d' → P.inv d' → (f d').device userId deviceId = some v →
      ∀ d'', P.rely (b.share (.device deviceId) ++ held) d' d'' → P.inv d'' →
        ((f d'').deviceRoom userId deviceId roomId = none →
          noRoom.Keeps P ok post q (b.share (.device deviceId) ++ held) f d'') ∧
        ∀ r, (f d'').deviceRoom userId deviceId roomId = some r →
          next.Keeps P ok post q (b.share (.room roomId) ++ (b.share (.device deviceId) ++ held))
            f d'') :
    (lockConnection b userId deviceId roomId noDevice noRoom next).Keeps P ok post q held f d := by
  refine keeps_selectFor fun d₁ h₁ i₁ => ?_
  cases hv : (f d₁).device userId deviceId with
  | none => exact hnoDevice d₁ h₁ i₁ hv
  | some v =>
    refine keeps_selectFor fun d₂ h₂ i₂ => ?_
    have h' := h v d₁ h₁ i₁ hv d₂ h₂ i₂
    cases hr : (f d₂).deviceRoom userId deviceId roomId with
    | none => exact h'.1 hr
    | some r => exact h'.2 r hr

end MouseKeeper.Storage
