import Mathlib.Data.Nat.Notation
import Mathlib.Logic.Function.Iterate
import Mathlib.Order.Monotone.Basic
import Mathlib.Tactic.IntervalCases

/-!
The Gregorian calendar.

A year is a leap year if four divides it, but not if a hundred does, unless four hundred does.
The days are numbered from the first of January of the year zero on; the date of a day is what
one comes to by going from a known date to the next one as often as days have passed.
-/

namespace MouseKeeper.Calendar

structure Date where
  year : ℕ
  month : ℕ
  day : ℕ
  deriving DecidableEq, Repr

def IsLeap (year : ℕ) : Prop := year % 4 = 0 ∧ (year % 100 ≠ 0 ∨ year % 400 = 0)

instance : DecidablePred IsLeap := fun _ => by unfold IsLeap; infer_instance

def monthLength (year month : ℕ) : ℕ :=
  match month with
  | 2 => if IsLeap year then 29 else 28
  | 4 | 6 | 9 | 11 => 30
  | _ => 31

structure Date.Valid (d : Date) : Prop where
  month_pos : 1 ≤ d.month
  month_le : d.month ≤ 12
  day_pos : 1 ≤ d.day
  day_le : d.day ≤ monthLength d.year d.month

instance : DecidablePred Date.Valid := fun d =>
  decidable_of_iff (1 ≤ d.month ∧ d.month ≤ 12 ∧ 1 ≤ d.day ∧ d.day ≤ monthLength d.year d.month)
    ⟨fun ⟨h1, h2, h3, h4⟩ => ⟨h1, h2, h3, h4⟩, fun ⟨h1, h2, h3, h4⟩ => ⟨h1, h2, h3, h4⟩⟩

/-- The date of the next day. -/
def Date.next (d : Date) : Date :=
  if d.day < monthLength d.year d.month then { d with day := d.day + 1 }
  else if d.month < 12 then ⟨d.year, d.month + 1, 1⟩
  else ⟨d.year + 1, 1, 1⟩

/-- The order of the dates, by year, month and day. -/
def Date.Before (a b : Date) : Prop :=
  a.year < b.year ∨ a.year = b.year ∧ (a.month < b.month ∨ a.month = b.month ∧ a.day < b.day)

/-! ### Numbers of days -/

def daysBeforeYear (year : ℕ) : ℕ :=
  365 * year + (year + 3) / 4 + (year + 399) / 400 - (year + 99) / 100

def daysBeforeMonth (year month : ℕ) : ℕ :=
  [0, 0, 31, 59, 90, 120, 151, 181, 212, 243, 273, 304, 334].getD month 365 +
    if 2 < month ∧ IsLeap year then 1 else 0

def Date.dayNumber (d : Date) : ℕ := daysBeforeYear d.year + daysBeforeMonth d.year d.month + d.day

variable {a b d : Date} {y m n : ℕ}

lemma daysBeforeYear_succ :
    daysBeforeYear (y + 1) = daysBeforeYear y + 365 + if IsLeap y then 1 else 0 := by
  have h4 : (y + 1 + 3) / 4 = (y + 3) / 4 + if y % 4 = 0 then 1 else 0 := by split_ifs <;> omega
  have h100 : (y + 1 + 99) / 100 = (y + 99) / 100 + if y % 100 = 0 then 1 else 0 := by
    split_ifs <;> omega
  have h400 : (y + 1 + 399) / 400 = (y + 399) / 400 + if y % 400 = 0 then 1 else 0 := by
    split_ifs <;> omega
  have hle : (y + 99) / 100 ≤ 365 * y + (y + 3) / 4 := by omega
  have hleap : (if y % 4 = 0 then 1 else 0) + (if y % 400 = 0 then 1 else 0) =
      (if y % 100 = 0 then 1 else 0) + if IsLeap y then 1 else 0 := by
    have hdvd : (y % 400 = 0 → y % 100 = 0) ∧ (y % 100 = 0 → y % 4 = 0) := by omega
    by_cases h1 : y % 4 = 0 <;> by_cases h2 : y % 100 = 0 <;> by_cases h3 : y % 400 = 0 <;>
      simp_all [IsLeap]
  unfold daysBeforeYear
  rw [h4, h100, h400]
  generalize (if y % 4 = 0 then 1 else 0) = a at hleap ⊢
  generalize (if y % 400 = 0 then 1 else 0) = b at hleap ⊢
  generalize (if y % 100 = 0 then 1 else 0) = c at hleap ⊢
  generalize (if IsLeap y then 1 else 0) = e at hleap ⊢
  omega

lemma daysBeforeMonth_succ (hm : 1 ≤ m) (hm' : m < 12) :
    daysBeforeMonth y (m + 1) = daysBeforeMonth y m + monthLength y m := by
  by_cases hl : IsLeap y <;> interval_cases m <;> simp [daysBeforeMonth, monthLength, hl]

lemma daysBeforeMonth_last :
    daysBeforeMonth y 12 + monthLength y 12 = 365 + if IsLeap y then 1 else 0 := by
  by_cases hl : IsLeap y <;> simp [daysBeforeMonth, monthLength, hl]

lemma daysBeforeMonth_first : daysBeforeMonth y 1 = 0 := by simp [daysBeforeMonth]

lemma one_le_monthLength : 1 ≤ monthLength y m := by
  unfold monthLength
  split
  · split_ifs <;> decide
  all_goals decide

/-- **The next date is that of the next day.** -/
theorem dayNumber_next (h : d.Valid) : d.next.Valid ∧ d.next.dayNumber = d.dayNumber + 1 := by
  obtain ⟨hm, hm', hd, hd'⟩ := h
  unfold Date.next
  split_ifs with hlast hmonth
  · exact ⟨⟨hm, hm', by dsimp only; omega, hlast⟩, by simp only [Date.dayNumber]; omega⟩
  · refine ⟨⟨by dsimp only; omega, hmonth, le_rfl, one_le_monthLength⟩, ?_⟩
    simp only [Date.dayNumber, daysBeforeMonth_succ hm hmonth]
    omega
  · obtain hm12 : d.month = 12 := by omega
    refine ⟨⟨le_rfl, (by decide : 1 ≤ 12), le_rfl, one_le_monthLength⟩, ?_⟩
    have hyear := daysBeforeMonth_last (y := d.year)
    simp only [Date.dayNumber, daysBeforeYear_succ, daysBeforeMonth_first, hm12] at hlast ⊢
    rw [hm12] at hd'
    omega

lemma daysBeforeYear_strictMono : StrictMono daysBeforeYear :=
  strictMono_nat_of_lt_succ fun y => by
    rw [daysBeforeYear_succ]
    omega

lemma daysBeforeMonth_le {m' : ℕ} (hm : 1 ≤ m) (hlt : m < m') (hm' : m' ≤ 12) :
    daysBeforeMonth y m + monthLength y m ≤ daysBeforeMonth y m' := by
  induction m', hlt using Nat.le_induction with
  | base => rw [daysBeforeMonth_succ hm hm']
  | succ k hk ih =>
    rw [daysBeforeMonth_succ (by omega) hm']
    exact (ih (by omega)).trans (Nat.le_add_right _ _)

lemma daysBeforeMonth_add_le (hm : 1 ≤ m) (hm' : m ≤ 12) :
    daysBeforeMonth y m + monthLength y m ≤ 365 + if IsLeap y then 1 else 0 := by
  rw [← daysBeforeMonth_last]
  obtain hlt | rfl := hm'.lt_or_eq
  · exact (daysBeforeMonth_le hm hlt le_rfl).trans (Nat.le_add_right _ _)
  · exact le_rfl

/-- **The days are numbered in the order of their dates.** -/
theorem dayNumber_lt (ha : a.Valid) (hb : b.Valid) (h : a.Before b) : a.dayNumber < b.dayNumber := by
  have hday := hb.day_pos
  obtain hy | ⟨hy, hm | ⟨hm, hd⟩⟩ := h
  · have hyear : daysBeforeYear (a.year + 1) ≤ daysBeforeYear b.year :=
      daysBeforeYear_strictMono.monotone hy
    have hmonth := daysBeforeMonth_add_le (y := a.year) ha.month_pos ha.month_le
    have := ha.day_le
    rw [daysBeforeYear_succ] at hyear
    unfold Date.dayNumber
    omega
  · have hmonth := daysBeforeMonth_le (y := a.year) ha.month_pos hm hb.month_le
    have := ha.day_le
    unfold Date.dayNumber
    rw [← hy]
    omega
  · unfold Date.dayNumber
    rw [hy, hm]
    omega

lemma before_or : a.Before b ∨ a = b ∨ b.Before a := by
  unfold Date.Before
  rcases a with ⟨ya, ma, da⟩
  rcases b with ⟨yb, mb, db⟩
  simp only [Date.mk.injEq]
  omega

lemma before_of_dayNumber_lt (ha : a.Valid) (hb : b.Valid) (h : a.dayNumber < b.dayNumber) :
    a.Before b := by
  rcases before_or (a := a) (b := b) with hab | rfl | hba
  · exact hab
  · exact absurd h (lt_irrefl _)
  · exact absurd (dayNumber_lt hb ha hba) h.not_gt

lemma eq_of_dayNumber_eq (ha : a.Valid) (hb : b.Valid) (h : a.dayNumber = b.dayNumber) : a = b := by
  rcases before_or (a := a) (b := b) with hab | hab | hba
  · exact absurd h (dayNumber_lt ha hb hab).ne
  · exact hab
  · exact absurd h (dayNumber_lt hb ha hba).ne'

/-! ### Years that begin in March -/

lemma daysBeforeYear_march : daysBeforeYear y + (if IsLeap y then 1 else 0) + y / 100 =
    365 * y + y / 4 + y / 400 + 1 := by
  have hsucc := daysBeforeYear_succ (y := y)
  have h4 : (y + 1 + 3) / 4 = y / 4 + 1 := by omega
  have h100 : (y + 1 + 99) / 100 = y / 100 + 1 := by omega
  have h400 : (y + 1 + 399) / 400 = y / 400 + 1 := by omega
  have hle : y / 100 ≤ y / 4 := Nat.div_le_div_left (by decide) (by decide)
  rw [daysBeforeYear, h4, h100, h400] at hsucc
  generalize y / 4 = q4, y / 100 = q100, y / 400 = q400 at hsucc hle ⊢
  generalize (if IsLeap y then 1 else 0) = a at hsucc ⊢
  omega

/-- The date so many days after the first of March. The months from March on have lengths that
come again after every five, and a fifth of 153 is their mean. -/
theorem exists_date {u : ℕ} (hu : u ≤ 365) (hleap : u = 365 → IsLeap (y + 1)) :
    ∃ d : Date, d.Valid ∧
      d.dayNumber = daysBeforeYear y + (if IsLeap y then 1 else 0) + 60 + u ∧
      d.year = y + (if d.month ≤ 2 then 1 else 0) ∧
      (d.month + (if (5 * u + 2) / 153 < 10 then 0 else 12) = (5 * u + 2) / 153 + 3) ∧
      d.day + (153 * ((5 * u + 2) / 153) + 2) / 5 = u + 1 := by
  obtain ⟨mp, hmp⟩ : ∃ mp, (5 * u + 2) / 153 = mp := ⟨_, rfl⟩
  have hmp' : mp ≤ 11 := by omega
  rw [hmp]
  by_cases hm : mp < 10
  · refine ⟨⟨y, mp + 3, u + 1 - (153 * mp + 2) / 5⟩, ⟨?_, ?_, ?_, ?_⟩, ?_, ?_, ?_, ?_⟩
    · dsimp only; omega
    · dsimp only; omega
    · dsimp only; omega
    · interval_cases mp <;> simp [monthLength] <;> omega
    · by_cases hl : IsLeap y <;> interval_cases mp <;>
        simp [Date.dayNumber, daysBeforeMonth, hl] <;> omega
    · dsimp only; rw [if_neg (by omega)]; rfl
    · dsimp only; rw [if_pos hm]
    · dsimp only; omega
  · refine ⟨⟨y + 1, mp - 9, u + 1 - (153 * mp + 2) / 5⟩, ⟨?_, ?_, ?_, ?_⟩, ?_, ?_, ?_, ?_⟩
    · dsimp only; omega
    · dsimp only; omega
    · dsimp only; omega
    · by_cases hl : IsLeap (y + 1)
      · interval_cases mp <;> simp [monthLength, hl] <;> omega
      · have hu' : u < 365 := lt_of_le_of_ne hu fun h => hl (hleap h)
        interval_cases mp <;> simp [monthLength, hl] <;> omega
    · simp only [Date.dayNumber, daysBeforeYear_succ]
      interval_cases mp <;> simp [daysBeforeMonth] <;> omega
    · dsimp only; rw [if_pos (by omega)]
    · dsimp only; rw [if_neg hm]; omega
    · dsimp only; omega

/-- The date so many days after another. -/
def Date.after (d : Date) (n : ℕ) : Date := Date.next^[n] d

lemma dayNumber_after (h : d.Valid) : (d.after n).Valid ∧ (d.after n).dayNumber = d.dayNumber + n := by
  induction n with
  | zero => exact ⟨h, rfl⟩
  | succ n ih =>
    obtain ⟨hvalid, hnumber⟩ := ih
    unfold Date.after at hvalid hnumber ⊢
    rw [Function.iterate_succ_apply']
    obtain ⟨hvalid', hnumber'⟩ := dayNumber_next hvalid
    exact ⟨hvalid', by omega⟩

/-- A valid date with the right number is the date that many days later. -/
theorem eq_after (h : d.Valid) (hb : b.Valid) (hn : b.dayNumber = d.dayNumber + n) :
    b = d.after n :=
  eq_of_dayNumber_eq hb (dayNumber_after h).1 (hn.trans (dayNumber_after h).2.symm)

/-- A later date comes after. -/
theorem after_before {k : ℕ} (h : d.Valid) (hlt : n < k) : (d.after n).Before (d.after k) := by
  obtain ⟨hn, hn'⟩ := dayNumber_after (n := n) h
  obtain ⟨hk, hk'⟩ := dayNumber_after (n := k) h
  exact before_of_dayNumber_lt hn hk (by omega)

end MouseKeeper.Calendar
