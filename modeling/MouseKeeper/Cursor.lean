import Mathlib.Data.List.Infix
import Mathlib.Data.List.Nodup

/-!
Pages that go on after the last entry of the page before.

The entries of a list are shown page by page. A page starts with the entries that come after
a cursor, by a test that need not be the order of the list, and the pages end with one that is
not full. The list comes out as it is exactly if the test cuts it behind every entry that ends
a full page.
-/

namespace MouseKeeper.Cursor

variable {α : Type} (after : α → α → Bool) (limit : ℕ) (l : List α)

/-- The entries that come after the cursor. -/
def shown : Option α → List α
  | none => l
  | some c => l.filter (after c)

/-- What comes out, page by page. -/
inductive Follows : Option α → List α → Prop
  | last {cursor} (h : (shown after l cursor).length < limit) :
      Follows cursor (shown after l cursor)
  | more {cursor c out} (h : limit ≤ (shown after l cursor).length)
      (hlast : ((shown after l cursor).take limit).getLast? = some c) (rest : Follows (some c) out) :
      Follows cursor ((shown after l cursor).take limit ++ out)

/-- The test cuts the list behind every entry that ends a full page. -/
def Cuts : Prop :=
  ∀ pre c rest, l = pre ++ c :: rest → limit ∣ pre.length + 1 → l.filter (after c) = rest

variable {after limit l} {cursor : Option α} {out out' pre d : List α}

lemma Follows.unique (h : Follows after limit l cursor out) (h' : Follows after limit l cursor out') :
    out = out' := by
  induction h generalizing out' with
  | last h =>
    cases h' with
    | last => rfl
    | more hle => omega
  | more h hlast rest ih =>
    cases h' with
    | last hlt => omega
    | more _ hlast' rest' =>
      obtain rfl := Option.some.inj (hlast.symm.trans hlast')
      rw [ih rest']

/-- The first page is the beginning of what comes out. -/
lemma Follows.take (h : Follows after limit l cursor out) :
    out.take limit = (shown after l cursor).take limit := by
  cases h with
  | last h => rfl
  | more h _ _ => rw [List.take_append_of_le_length (by simp [h]), List.take_take, min_self]

lemma follows_of_cuts (hlimit : 0 < limit) (hc : Cuts after limit l) (hl : l = pre ++ d)
    (hpre : limit ∣ pre.length) (hd : shown after l cursor = d) :
    Follows after limit l cursor d := by
  induction hn : d.length using Nat.strong_induction_on generalizing pre d cursor with
  | _ n ih =>
    by_cases hlt : d.length < limit
    · rw [← hd]
      exact .last (hd ▸ hlt)
    · -- The page is full, and the list is cut behind its last entry.
      have hle : limit ≤ d.length := Nat.le_of_not_lt hlt
      have hlen : (d.take limit).length = limit := by simp [hle]
      have hne : d.take limit ≠ [] := fun h => by simp [h] at hlen; omega
      obtain ⟨c, hlast⟩ : ∃ c, (d.take limit).getLast? = some c :=
        ⟨_, List.getLast?_eq_some_getLast hne⟩
      have hpage : d.take limit = (d.take limit).dropLast ++ [c] := by
        obtain ⟨ys, hys⟩ := List.getLast?_eq_some_iff.mp hlast
        rw [hys, List.dropLast_concat]
      have hsplit : l = pre ++ d.take limit ++ d.drop limit := by
        rw [List.append_assoc, List.take_append_drop, hl]
      have hcut : l.filter (after c) = d.drop limit := by
        refine hc (pre ++ (d.take limit).dropLast) c (d.drop limit) ?_ ?_
        · rw [List.append_assoc, ← List.singleton_append, ← List.append_assoc _ [c], ← hpage,
            ← List.append_assoc]
          exact hsplit
        · have hdl : (d.take limit).dropLast.length + 1 = limit := by
            rw [List.length_dropLast, hlen]
            omega
          rw [List.length_append, Nat.add_assoc, hdl]
          exact (Nat.dvd_add_right hpre).mpr (Nat.dvd_refl _)
      have hpre' : limit ∣ (pre ++ d.take limit).length := by
        rw [List.length_append, hlen]
        exact (Nat.dvd_add_right hpre).mpr (Nat.dvd_refl _)
      have hshorter : (d.drop limit).length < n := by
        rw [List.length_drop]
        omega
      have hrest : Follows after limit l (some c) (d.drop limit) :=
        ih _ hshorter hsplit hpre' hcut rfl
      have := Follows.more (hd ▸ hle) (hd ▸ hlast) hrest
      rwa [hd, List.take_append_drop] at this

/-- Two ends of a list that begin alike are the same. -/
lemma suffix_eq {x y : List α} (hnodup : l.Nodup) (hx : x <:+ l) (hy : y <:+ l)
    (hlimit : 0 < limit) (h : x.take limit = y.take limit) : x = y := by
  obtain ⟨k, rfl⟩ := Nat.exists_eq_succ_of_ne_zero hlimit.ne'
  cases x with
  | nil =>
    cases y with
    | nil => rfl
    | cons b y => simp at h
  | cons a x =>
    cases y with
    | nil => simp at h
    | cons b y =>
      obtain ⟨rfl, -⟩ := List.cons.inj (by simpa using h)
      obtain ⟨p, hp⟩ := hx
      obtain ⟨q, hq⟩ := hy
      have hnot : a ∉ p ∧ a ∉ x := by
        have hnd : (p ++ a :: x).Nodup := hp ▸ hnodup
        obtain ⟨-, hx', hdisj⟩ := List.nodup_append.mp hnd
        exact ⟨fun hm => hdisj a hm a List.mem_cons_self rfl, (List.nodup_cons.mp hx').1⟩
      have heq := List.append_cons_inj_of_notMem hnot.1 hnot.2 |>.mp (hp.trans hq.symm)
      rw [heq.2.2]

lemma cuts_of_follows (hlimit : 0 < limit) (hnodup : l.Nodup)
    (hsuffix : ∀ c, l.filter (after c) <:+ l) (h : Follows after limit l cursor d)
    (hd : shown after l cursor = d) (hl : d <:+ l) {p rest : List α} {c : α}
    (hp : d = p ++ c :: rest) (hdvd : limit ∣ p.length + 1) : l.filter (after c) = rest := by
  induction h generalizing p with
  | last h =>
    have hle := Nat.le_of_dvd (Nat.succ_pos _) hdvd
    rw [hp, List.length_append, List.length_cons] at h
    omega
  | @more cursor c' out h hlast hrest ih =>
    have hout : (shown after l cursor).drop limit = out := by
      have := (List.take_append_drop limit (shown after l cursor)).trans hd
      exact List.append_cancel_left this
    have hle := Nat.le_of_dvd (Nat.succ_pos _) hdvd
    have hout_suffix : out <:+ l :=
      (List.suffix_append _ out).trans hl
    have hnext : shown after l (some c') = out :=
      suffix_eq hnodup (hsuffix c') hout_suffix hlimit hrest.take.symm
    have hlen : ((shown after l cursor).take limit).length = limit := by simp [h]
    rcases Nat.lt_or_eq_of_le hle with hlt | heq
    · -- The entry ends one of the later pages.
      obtain ⟨p', rfl⟩ : (shown after l cursor).take limit <+: p := by
        have hpage : (shown after l cursor).take limit <+: p ++ c :: rest :=
          hp ▸ List.prefix_append _ _
        exact List.prefix_of_prefix_length_le hpage (List.prefix_append _ _) (by omega)
      rw [List.append_assoc] at hp
      refine ih hnext hout_suffix (List.append_cancel_left hp) ?_
      rw [List.length_append, hlen, Nat.add_assoc] at hdvd
      exact (Nat.dvd_add_right (Nat.dvd_refl _)).mp hdvd
    · -- It ends this page.
      have hsplit : (shown after l cursor).take limit ++ out = (p ++ [c]) ++ rest := by
        rw [hp, List.append_assoc, List.singleton_append]
      obtain ⟨hpage, rfl⟩ := List.append_inj hsplit (by
        rw [hlen, List.length_append, List.length_singleton, heq])
      rw [hpage, List.getLast?_concat] at hlast
      obtain rfl := Option.some.inj hlast
      exact hnext

/-- **The pages put together are the list** exactly if it is cut behind every full page. -/
theorem follows_iff (hlimit : 0 < limit) (hnodup : l.Nodup)
    (hsuffix : ∀ c, l.filter (after c) <:+ l) :
    (∀ out, Follows after limit l none out ↔ out = l) ↔ Cuts after limit l := by
  constructor
  · intro h pre c rest hp hdvd
    exact cuts_of_follows hlimit hnodup hsuffix ((h l).mpr rfl) rfl (List.suffix_refl l) hp hdvd
  · intro hc out
    have hl : Follows after limit l none l :=
      follows_of_cuts hlimit hc (List.nil_append l).symm (Nat.dvd_zero _) rfl
    exact ⟨fun h => h.unique hl, fun h => h ▸ hl⟩

/-- A test that once passed stays passed shows an end of the list. -/
lemma filter_suffix {p : α → Bool} {R : α → α → Prop} (hR : ∀ a b, R a b → p a = true → p b = true)
    (h : l.Pairwise R) : l.filter p <:+ l := by
  induction l with
  | nil => exact List.suffix_refl _
  | cons a l ih =>
    obtain ⟨ha, hl⟩ := List.pairwise_cons.mp h
    cases hp : p a with
    | false =>
      rw [List.filter_cons_of_neg (by simp [hp])]
      exact (ih hl).trans (List.suffix_cons a l)
    | true =>
      have hall : l.filter p = l := List.filter_eq_self.mpr fun b hb => hR a b (ha b hb) hp
      rw [List.filter_cons_of_pos hp, hall]

end MouseKeeper.Cursor
