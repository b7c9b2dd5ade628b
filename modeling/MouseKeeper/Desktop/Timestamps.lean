import MouseKeeper.Calendar
import MouseKeeper.Digits
import Mathlib.Data.Int.Notation

/-!
Timestamps.

An instant is a number of milliseconds since the beginning of the year 1970. Its text is what
the snapshots of a room are stamped with and what their keys in the outbox end in; the functions
that write it stand in several files.
-/

namespace MouseKeeper.Desktop

open MouseKeeper.Calendar MouseKeeper.Digits

/-! ### Integers -/

/-- `try_from`, for a type with these bounds. -/
def tryFrom (least greatest n : ℤ) : Option ℤ := if least ≤ n ∧ n ≤ greatest then some n else none

def i64TryFrom (n : ℤ) : Option ℤ := tryFrom (-2 ^ 63) (2 ^ 63 - 1) n

def i32TryFrom (n : ℤ) : Option ℤ := tryFrom (-2 ^ 31) (2 ^ 31 - 1) n

def u32TryFrom (n : ℤ) : Option ℤ := tryFrom 0 (2 ^ 32 - 1) n

/-- An integer as `{:0w}` writes it; a sign takes one of the places. -/
def padInt (w : ℕ) (n : ℤ) : String :=
  if n < 0 then String.ofList ('-' :: padded (w - 1) n.natAbs) else String.ofList (padded w n.toNat)

/-! ### `cleanliness.rs` -/

namespace Cleanliness

def civilFromDays (days : ℤ) : ℤ × ℤ × ℤ :=
  let z := days + 719468
  let era := (if z ≥ 0 then z else z - 146096).tdiv 146097
  let doe := z - era * 146097
  let yoe := (doe - doe.tdiv 1460 + doe.tdiv 36524 - doe.tdiv 146096).tdiv 365
  let y := yoe + era * 400
  let doy := doe - (365 * yoe + yoe.tdiv 4 - yoe.tdiv 100)
  let mp := (5 * doy + 2).tdiv 153
  let day := doy - (153 * mp + 2).tdiv 5 + 1
  let month := mp + if mp < 10 then 3 else -9
  let year := y + if month ≤ 2 then 1 else 0
  ((i32TryFrom year).getD (2 ^ 31 - 1), (u32TryFrom month).getD 1, (u32TryFrom day).getD 1)

def unixSecondsToUtc (seconds : ℤ) : ℤ × ℤ × ℤ × ℤ × ℤ × ℤ :=
  let days := seconds / 86400
  let daySeconds := seconds % 86400
  let (year, month, day) := civilFromDays days
  let hour := (u32TryFrom (daySeconds.tdiv 3600)).getD 0
  let minute := (u32TryFrom ((daySeconds.tmod 3600).tdiv 60)).getD 0
  let second := (u32TryFrom (daySeconds.tmod 60)).getD 0
  (year, month, day, hour, minute, second)

def unixMsToRfc3339 (unixMs : Option ℕ) : String :=
  let millis := unixMs.getD 0
  let seconds := (i64TryFrom (millis / 1000 : ℕ)).getD (2 ^ 63 - 1)
  let subMs := (u32TryFrom (millis % 1000 : ℕ)).getD 0
  let (year, month, day, hour, minute, second) := unixSecondsToUtc seconds
  padInt 4 year ++ "-" ++ padInt 2 month ++ "-" ++ padInt 2 day ++ "T" ++ padInt 2 hour ++ ":" ++
    padInt 2 minute ++ ":" ++ padInt 2 second ++ "." ++ padInt 3 subMs ++ "Z"

/-- The stamp of a snapshot, from the last one and the time that the clock shows. -/
def monotonicUnixMs (previous now : ℕ) : ℕ :=
  max (min now (2 ^ 64 - 1)) (min (previous + 1) (2 ^ 64 - 1))

end Cleanliness

/-! ### `file_transfer_processor.rs` -/

namespace FileTransfer

def civilFromDays (days : ℤ) : ℤ × ℤ × ℤ :=
  let z := days + 719468
  let era := (if z ≥ 0 then z else z - 146096).tdiv 146097
  let doe := z - era * 146097
  let yoe := (doe - doe.tdiv 1460 + doe.tdiv 36524 - doe.tdiv 146096).tdiv 365
  let y := yoe + era * 400
  let doy := doe - (365 * yoe + yoe.tdiv 4 - yoe.tdiv 100)
  let mp := (5 * doy + 2).tdiv 153
  let day := doy - (153 * mp + 2).tdiv 5 + 1
  let month := mp + if mp < 10 then 3 else -9
  let year := y + if month ≤ 2 then 1 else 0
  ((i32TryFrom year).getD (2 ^ 31 - 1), (u32TryFrom month).getD 1, (u32TryFrom day).getD 1)

def unixSecondsToUtc (seconds : ℤ) : ℤ × ℤ × ℤ × ℤ × ℤ × ℤ :=
  let days := seconds / 86400
  let daySeconds := seconds % 86400
  let (year, month, day) := civilFromDays days
  let hour := (u32TryFrom (daySeconds.tdiv 3600)).getD 0
  let minute := (u32TryFrom ((daySeconds.tmod 3600).tdiv 60)).getD 0
  let second := (u32TryFrom (daySeconds.tmod 60)).getD 0
  (year, month, day, hour, minute, second)

def unixMsToRfc3339 (unixMs : Option ℕ) : String :=
  let millis := unixMs.getD 0
  let seconds := (i64TryFrom (millis / 1000 : ℕ)).getD (2 ^ 63 - 1)
  let subMs := (u32TryFrom (millis % 1000 : ℕ)).getD 0
  let (year, month, day, hour, minute, second) := unixSecondsToUtc seconds
  padInt 4 year ++ "-" ++ padInt 2 month ++ "-" ++ padInt 2 day ++ "T" ++ padInt 2 hour ++ ":" ++
    padInt 2 minute ++ ":" ++ padInt 2 second ++ "." ++ padInt 3 subMs ++ "Z"

end FileTransfer

/-! ### `outbox_processor.rs` -/

/-- The key of a room's snapshot in the outbox. -/
def snapshotKey (roomId calculatedAt : String) : String := roomId ++ "-" ++ calculatedAt

/-! ### The date of a day -/

/-- The parts of a day: the eras of four hundred years that begin in March, the centuries, the
fours of years, the years and the days that lie before it. -/
structure Parts where
  era : ℕ
  century : ℕ
  four : ℕ
  year : ℕ
  day : ℕ
  century_le : century ≤ 3
  four_le : four ≤ 24
  year_le : year ≤ 3
  day_le : day ≤ 365
  /-- A leap day is the last one of its year. -/
  leap : day = 365 → year = 3 ∧ (four = 24 → century = 3)

namespace Parts

variable (p : Parts)

def dayOfEra : ℕ := 36524 * p.century + 1461 * p.four + 365 * p.year + p.day

def yearOfEra : ℕ := 100 * p.century + 4 * p.four + p.year

/-- The year that begins with the last first of March. -/
def yearNumber : ℕ := p.yearOfEra + p.era * 400

lemma isLeap (h : p.day = 365) : IsLeap (p.yearNumber + 1) := by
  obtain ⟨hyear, hfour⟩ := p.leap h
  have := p.four_le
  have := p.century_le
  unfold IsLeap yearNumber yearOfEra
  omega

lemma exists_dayOfEra {doe : ℕ} (e : ℕ) (h : doe < 146097) : ∃ p : Parts, p.era = e ∧ p.dayOfEra = doe := by
  obtain ⟨c, r, hdoe, hc, hr, hr'⟩ : ∃ c r : ℕ, doe = 36524 * c + r ∧ c ≤ 3 ∧ r ≤ 36524 ∧
      (r = 36524 → c = 3) := by
    by_cases hlast : doe = 146096
    · exact ⟨3, 36524, by omega, by omega, by omega, by omega⟩
    · exact ⟨doe / 36524, doe % 36524, by omega, by omega, by omega, by omega⟩
  obtain ⟨f, s, hrs, hf, hs⟩ : ∃ f s : ℕ, r = 1461 * f + s ∧ f ≤ 24 ∧ s ≤ 1460 :=
    ⟨r / 1461, r % 1461, by omega, by omega, by omega⟩
  by_cases hleap : s = 1460
  · refine ⟨⟨e, c, f, 3, 365, hc, hf, le_rfl, le_rfl, by omega⟩, rfl, ?_⟩
    simp only [dayOfEra]
    omega
  · refine ⟨⟨e, c, f, s / 365, s % 365, hc, hf, by omega, by omega, by omega⟩, rfl, ?_⟩
    simp only [dayOfEra]
    omega

lemma div_dayOfEra {n k q r : ℕ} (h : n = k * q + r) (hr : r < k) : n / k = q := by
  rw [h, Nat.mul_add_div (by omega), Nat.div_eq_of_lt hr, add_zero]

lemma century_eq : p.dayOfEra / 36524 = p.century + p.dayOfEra / 146096 := by
  obtain ⟨e, c, f, t, u, hc, hf, ht, hu, hleap⟩ := p
  simp only [dayOfEra]
  by_cases hlast : f = 24 ∧ u = 365
  · obtain ⟨rfl, rfl⟩ := hlast
    obtain ⟨rfl, h⟩ := hleap rfl
    rw [h rfl]
  · have hr : 1461 * f + 365 * t + u < 36524 := by omega
    rw [div_dayOfEra (k := 36524) (q := c) (by omega) hr, Nat.div_eq_of_lt (by omega), add_zero]

/-- The year of the era as it is computed from the day: what the leap days have added is taken
back before the division. -/
lemma year_eq : p.dayOfEra / 1460 ≤ p.dayOfEra + p.century ∧
    (p.dayOfEra + p.century - p.dayOfEra / 1460) / 365 = p.yearOfEra := by
  obtain ⟨e, c, f, t, u, hc, hf, ht, hu, hleap⟩ := p
  simp only [dayOfEra, yearOfEra]
  obtain ⟨k, hk⟩ : ∃ k, (24 * c + f + 365 * t + u) / 1460 = k := ⟨_, rfl⟩
  have hdiv : (36524 * c + 1461 * f + 365 * t + u) / 1460 = 25 * c + f + k := by
    have hsplit : 36524 * c + 1461 * f + 365 * t + u =
        (24 * c + f + 365 * t + u) + (25 * c + f) * 1460 := by omega
    rw [hsplit, Nat.add_mul_div_right _ _ (by decide), hk, add_comm]
  have hlow : k ≤ u := by omega
  have hhigh : u < 365 + k := by omega
  rw [hdiv]
  refine ⟨by omega, div_dayOfEra (r := u - k) ?_ ?_⟩ <;> omega

/-- The days of the years of the era before this one. -/
lemma day_eq : p.dayOfEra = 365 * p.yearOfEra + p.yearOfEra / 4 - p.yearOfEra / 100 + p.day := by
  obtain ⟨e, c, f, t, u, hc, hf, ht, hu, hleap⟩ := p
  simp only [dayOfEra, yearOfEra]
  have h4 : (100 * c + 4 * f + t) / 4 = 25 * c + f := div_dayOfEra (r := t) (by omega) (by omega)
  have h100 : (100 * c + 4 * f + t) / 100 = c := div_dayOfEra (r := 4 * f + t) (by omega) (by omega)
  rw [h4, h100]
  omega

lemma tdiv_natCast (a b : ℕ) : (a : ℤ).tdiv b = (a / b : ℕ) := rfl

lemma year_computed : ((p.dayOfEra : ℤ) - (p.dayOfEra : ℤ).tdiv 1460 +
    (p.dayOfEra : ℤ).tdiv 36524 - (p.dayOfEra : ℤ).tdiv 146096).tdiv 365 = p.yearOfEra := by
  obtain ⟨hle, hyoe⟩ := p.year_eq
  have hcentury := p.century_eq
  have h1 : (p.dayOfEra : ℤ).tdiv 1460 = (p.dayOfEra / 1460 : ℕ) := tdiv_natCast ..
  have h2 : (p.dayOfEra : ℤ).tdiv 36524 = (p.dayOfEra / 36524 : ℕ) := tdiv_natCast ..
  have h3 : (p.dayOfEra : ℤ).tdiv 146096 = (p.dayOfEra / 146096 : ℕ) := tdiv_natCast ..
  have hsum : (p.dayOfEra : ℤ) - (p.dayOfEra : ℤ).tdiv 1460 + (p.dayOfEra : ℤ).tdiv 36524 -
      (p.dayOfEra : ℤ).tdiv 146096 = (p.dayOfEra + p.century - p.dayOfEra / 1460 : ℕ) := by
    rw [h1, h2, h3, hcentury]
    generalize p.dayOfEra / 1460 = q1, p.dayOfEra / 146096 = q3 at hle ⊢
    omega
  rw [hsum, ← hyoe]
  exact tdiv_natCast ..

lemma day_computed : (p.dayOfEra : ℤ) - (365 * p.yearOfEra + (p.yearOfEra : ℤ).tdiv 4 -
    (p.yearOfEra : ℤ).tdiv 100) = p.day := by
  have hdoe := p.day_eq
  have hle : p.yearOfEra / 100 ≤ p.yearOfEra / 4 := Nat.div_le_div_left (by decide) (by decide)
  have h1 : (p.yearOfEra : ℤ).tdiv 4 = (p.yearOfEra / 4 : ℕ) := tdiv_natCast ..
  have h2 : (p.yearOfEra : ℤ).tdiv 100 = (p.yearOfEra / 100 : ℕ) := tdiv_natCast ..
  rw [h1, h2]
  generalize p.yearOfEra / 4 = q4, p.yearOfEra / 100 = q100 at hdoe hle ⊢
  omega

/-- The number of the day, from the beginning of the year zero on. -/
lemma dayNumber_eq : daysBeforeYear p.yearNumber + (if IsLeap p.yearNumber then 1 else 0) + p.day =
    146097 * p.era + p.dayOfEra + 1 := by
  have hmarch := daysBeforeYear_march (y := p.yearNumber)
  obtain ⟨e, c, f, t, u, hc, hf, ht, hu, hleap⟩ := p
  simp only [yearNumber, dayOfEra, yearOfEra] at hmarch ⊢
  have h4 : (100 * c + 4 * f + t + e * 400) / 4 = 100 * e + 25 * c + f :=
    div_dayOfEra (r := t) (by omega) (by omega)
  have h100 : (100 * c + 4 * f + t + e * 400) / 100 = 4 * e + c :=
    div_dayOfEra (r := 4 * f + t) (by omega) (by omega)
  have h400 : (100 * c + 4 * f + t + e * 400) / 400 = e :=
    div_dayOfEra (r := 100 * c + 4 * f + t) (by omega) (by omega)
  rw [h4, h100, h400] at hmarch
  generalize daysBeforeYear _ + (if IsLeap _ then 1 else 0) = days at hmarch ⊢
  omega

end Parts

def epoch : Date := ⟨1970, 1, 1⟩

lemma epoch_valid : epoch.Valid := by decide

/-- The day on which an instant lies. -/
def dateOf (ms : ℕ) : Date := epoch.after (ms / 86400000)

/-- The text of a date and a time of the day. -/
def rfc3339 (date : Date) (hour minute second milli : ℕ) : String :=
  String.ofList (lastDigits 4 date.year ++ '-' :: (lastDigits 2 date.month ++ '-' ::
    (lastDigits 2 date.day ++ 'T' :: (lastDigits 2 hour ++ ':' :: (lastDigits 2 minute ++ ':' ::
      (lastDigits 2 second ++ '.' :: (lastDigits 3 milli ++ ['Z'])))))))

/-- What the text of an instant should be. -/
def utcText (ms : ℕ) : String :=
  rfc3339 (dateOf ms) (ms / 3600000 % 24) (ms / 60000 % 60) (ms / 1000 % 60) (ms % 1000)

/-- The instant that a text stands for, if it has the form and names a day and a time. -/
def parseRfc3339 (s : String) : Option ℕ :=
  match s.toList with
  | [y₁, y₂, y₃, y₄, '-', m₁, m₂, '-', d₁, d₂, 'T', h₁, h₂, ':', n₁, n₂, ':', s₁, s₂, '.',
      f₁, f₂, f₃, 'Z'] => do
    let date : Date := ⟨← number [y₁, y₂, y₃, y₄], ← number [m₁, m₂], ← number [d₁, d₂]⟩
    let hour ← number [h₁, h₂]
    let minute ← number [n₁, n₂]
    let second ← number [s₁, s₂]
    let milli ← number [f₁, f₂, f₃]
    if date.Valid ∧ epoch.dayNumber ≤ date.dayNumber ∧ hour < 24 ∧ minute < 60 ∧ second < 60 then
      some ((date.dayNumber - epoch.dayNumber) * 86400000 + hour * 3600000 + minute * 60000 +
        second * 1000 + milli)
    else none
  | _ => none

/-- The stamps of one snapshot after the other, as the clock shows the time at each. -/
def stamps (previous : ℕ) : List ℕ → List ℕ
  | [] => []
  | now :: readings =>
    Cleanliness.monotonicUnixMs previous now ::
      stamps (Cleanliness.monotonicUnixMs previous now) readings

open Parts in
/-- **The date is computed as it should be**, for every day from the epoch on. -/
lemma civilFromDays_eq (n : ℕ) : Cleanliness.civilFromDays n =
    ((i32TryFrom (epoch.after n).year).getD (2 ^ 31 - 1), (u32TryFrom (epoch.after n).month).getD 1,
      (u32TryFrom (epoch.after n).day).getD 1) := by
  obtain ⟨p, hera, hday⟩ := Parts.exists_dayOfEra ((n + 719468) / 146097)
    (Nat.mod_lt (n + 719468) (by decide : 146097 > 0))
  obtain ⟨d, hvalid, hnumber, hyear, hmonth, hd⟩ := exists_date (y := p.yearNumber) p.day_le p.isLeap
  have hz : n + 719468 = 146097 * p.era + p.dayOfEra := by
    rw [hera, hday, Nat.div_add_mod]
  have hdate : d = epoch.after n := by
    refine eq_after epoch_valid hvalid ?_
    have hepoch : epoch.dayNumber = 719529 := by decide
    have := p.dayNumber_eq
    omega
  obtain ⟨mp, hmp⟩ : ∃ mp, (5 * p.day + 2) / 153 = mp := ⟨_, rfl⟩
  rw [hmp] at hmonth hd
  -- The steps of the function, one after the other.
  have hz0 : (n : ℤ) + 719468 ≥ 0 := by omega
  have h1 : ((n : ℤ) + 719468).tdiv 146097 = p.era := hera ▸ tdiv_natCast (n + 719468) 146097
  have h2 : (n : ℤ) + 719468 - p.era * 146097 = p.dayOfEra := by omega
  have h3 : (5 * (p.day : ℤ) + 2).tdiv 153 = mp := hmp ▸ tdiv_natCast (5 * p.day + 2) 153
  have h4 : (153 * (mp : ℤ) + 2).tdiv 5 = ((153 * mp + 2) / 5 : ℕ) := tdiv_natCast (153 * mp + 2) 5
  simp only [Cleanliness.civilFromDays, if_pos hz0, h1, h2, p.year_computed, p.day_computed, h3, h4]
  rw [← hdate]
  have hmonth' : (mp : ℤ) + (if (mp : ℤ) < 10 then 3 else -9) = d.month := by
    split_ifs at hmonth ⊢ <;> omega
  have hyear' : (p.yearOfEra : ℤ) + p.era * 400 + (if (d.month : ℤ) ≤ 2 then 1 else 0) = d.year := by
    unfold Parts.yearNumber at hyear
    split_ifs at hyear ⊢ <;> omega
  have hday' : (p.day : ℤ) - ((153 * mp + 2) / 5 : ℕ) + 1 = d.day := by omega
  rw [hmonth', hyear', hday']

/-! ### The text of an instant -/

variable {n w a b ms : ℕ} {x y : ℕ} {r r' : List Char}

lemma padInt_natCast (hw : w ≠ 0) (hn : n < 10 ^ w) :
    padInt w n = String.ofList (lastDigits w n) := by
  have hneg : ¬ (n : ℤ) < 0 := by omega
  rw [padInt, if_neg hneg, Int.toNat_natCast, padded_eq hw hn]

lemma tryFrom_natCast {least greatest : ℤ} (hleast : least ≤ 0) (h : (n : ℤ) ≤ greatest) :
    tryFrom least greatest n = some (n : ℤ) :=
  if_pos ⟨hleast.trans (Int.natCast_nonneg n), h⟩

lemma dateOf_valid : (dateOf ms).Valid := (dayNumber_after epoch_valid).1

lemma dateOf_dayNumber : (dateOf ms).dayNumber = 719529 + ms / 86400000 :=
  (dayNumber_after epoch_valid).2

/-- The first instant of the year 10000. -/
lemma lt_of_year (h : (dateOf ms).year ≤ 9999) : ms < 253402300800000 := by
  have hlast : (⟨10000, 1, 1⟩ : Date).dayNumber = 3652426 := by decide
  have hlt := dayNumber_lt (b := ⟨10000, 1, 1⟩) dateOf_valid (by decide)
    (.inl (Nat.lt_succ_of_le h))
  rw [dateOf_dayNumber, hlast] at hlt
  omega

lemma day_lt (ms : ℕ) : (dateOf ms).month < 10 ^ 2 ∧ (dateOf ms).day < 10 ^ 2 := by
  have h : (dateOf ms).Valid := dateOf_valid
  have hlength : monthLength (dateOf ms).year (dateOf ms).month ≤ 31 := by
    unfold monthLength
    split
    · split_ifs <;> decide
    all_goals decide
  have := h.month_le
  have := h.day_le
  omega

lemma tmod_natCast (a b : ℕ) : (a : ℤ).tmod b = (a % b : ℕ) := rfl

lemma u32TryFrom_natCast (h : n < 86400) : u32TryFrom n = some (n : ℤ) :=
  tryFrom_natCast le_rfl (by omega)

lemma unixSecondsToUtc_eq (h : (dateOf ms).year ≤ 9999) :
    Cleanliness.unixSecondsToUtc (ms / 1000 : ℕ) =
      (((dateOf ms).year : ℤ), ((dateOf ms).month : ℤ), ((dateOf ms).day : ℤ),
        ((ms / 3600000 % 24 : ℕ) : ℤ), ((ms / 60000 % 60 : ℕ) : ℤ), ((ms / 1000 % 60 : ℕ) : ℤ)) := by
  obtain ⟨hmonth, hday⟩ := day_lt ms
  have hyear : i32TryFrom (dateOf ms).year = some ((dateOf ms).year : ℤ) :=
    tryFrom_natCast (by decide) (by omega)
  have hdays : ((ms / 1000 : ℕ) : ℤ) / 86400 = (ms / 86400000 : ℕ) := by omega
  have hseconds : ((ms / 1000 : ℕ) : ℤ) % 86400 = (ms / 1000 % 86400 : ℕ) := by omega
  have hhour : ((ms / 1000 % 86400 : ℕ) : ℤ).tdiv 3600 = (ms / 3600000 % 24 : ℕ) :=
    (Parts.tdiv_natCast _ 3600).trans (by omega)
  have hminute : (((ms / 1000 % 86400 : ℕ) : ℤ).tmod 3600).tdiv 60 = (ms / 60000 % 60 : ℕ) :=
    (Parts.tdiv_natCast (ms / 1000 % 86400 % 3600) 60).trans (by omega)
  have hsecond : ((ms / 1000 % 86400 : ℕ) : ℤ).tmod 60 = (ms / 1000 % 60 : ℕ) :=
    (tmod_natCast _ 60).trans (by omega)
  have hdate : epoch.after (ms / 86400000) = dateOf ms := rfl
  simp only [Cleanliness.unixSecondsToUtc, hdays, hseconds, civilFromDays_eq, hdate, hhour, hminute,
    hsecond, hyear]
  rw [u32TryFrom_natCast (n := (dateOf ms).month) (by omega),
    u32TryFrom_natCast (n := (dateOf ms).day) (by omega), u32TryFrom_natCast (by omega),
    u32TryFrom_natCast (by omega), u32TryFrom_natCast (by omega)]
  rfl

/-- **The text is that of the date and the time.** -/
lemma unixMsToRfc3339_eq (h : (dateOf ms).year ≤ 9999) :
    Cleanliness.unixMsToRfc3339 (some ms) = utcText ms := by
  have hms := lt_of_year h
  obtain ⟨hmonth, hday⟩ := day_lt ms
  have hseconds : i64TryFrom (ms / 1000 : ℕ) = some ((ms / 1000 : ℕ) : ℤ) :=
    tryFrom_natCast (by decide) (by omega)
  have hmilli : u32TryFrom (ms % 1000 : ℕ) = some ((ms % 1000 : ℕ) : ℤ) :=
    u32TryFrom_natCast (by omega)
  simp only [Cleanliness.unixMsToRfc3339, Option.getD_some, hseconds, hmilli, unixSecondsToUtc_eq h]
  rw [padInt_natCast (by decide) (by omega : (dateOf ms).year < 10 ^ 4),
    padInt_natCast (by decide) hmonth, padInt_natCast (by decide) hday,
    padInt_natCast (by decide) (by omega : ms / 3600000 % 24 < 10 ^ 2),
    padInt_natCast (by decide) (by omega : ms / 60000 % 60 < 10 ^ 2),
    padInt_natCast (by decide) (by omega : ms / 1000 % 60 < 10 ^ 2),
    padInt_natCast (by decide) (by omega : ms % 1000 < 10 ^ 3)]
  refine String.toList_injective ?_
  simp [utcText, rfc3339]

example : Cleanliness.unixMsToRfc3339 (some 1704067200123) = "2024-01-01T00:00:00.123Z" := by
  decide +kernel

/-! ### Reading the text -/

lemma number_field {l : List Char} (hl : lastDigits w n = l) (hn : n < 10 ^ w) :
    number l = some n := hl ▸ number_lastDigits hn

/-- **The text is read back as the instant.** -/
lemma parse_utcText (h : (dateOf ms).year ≤ 9999) : parseRfc3339 (utcText ms) = some ms := by
  obtain ⟨hmonth, hday⟩ := day_lt ms
  have hnumber : (dateOf ms).dayNumber = 719529 + ms / 86400000 := dateOf_dayNumber
  have hepoch : epoch.dayNumber = 719529 := by decide
  obtain ⟨y₁, y₂, y₃, y₄, hy⟩ : ∃ y₁ y₂ y₃ y₄, lastDigits 4 (dateOf ms).year = [y₁, y₂, y₃, y₄] :=
    ⟨_, _, _, _, rfl⟩
  have htwo : ∀ n, ∃ c₁ c₂, lastDigits 2 n = [c₁, c₂] := fun n => ⟨_, _, rfl⟩
  obtain ⟨m₁, m₂, hm⟩ := htwo (dateOf ms).month
  obtain ⟨d₁, d₂, hd⟩ := htwo (dateOf ms).day
  obtain ⟨h₁, h₂, hh⟩ := htwo (ms / 3600000 % 24)
  obtain ⟨n₁, n₂, hn⟩ := htwo (ms / 60000 % 60)
  obtain ⟨s₁, s₂, hs⟩ := htwo (ms / 1000 % 60)
  obtain ⟨f₁, f₂, f₃, hf⟩ : ∃ f₁ f₂ f₃, lastDigits 3 (ms % 1000) = [f₁, f₂, f₃] := ⟨_, _, _, rfl⟩
  have htext : (utcText ms).toList = [y₁, y₂, y₃, y₄, '-', m₁, m₂, '-', d₁, d₂, 'T', h₁, h₂, ':',
      n₁, n₂, ':', s₁, s₂, '.', f₁, f₂, f₃, 'Z'] := by
    simp [utcText, rfc3339, hy, hm, hd, hh, hn, hs, hf]
  have hdate : (⟨(dateOf ms).year, (dateOf ms).month, (dateOf ms).day⟩ : Date) = dateOf ms := rfl
  simp only [parseRfc3339, htext, number_field hy (by omega), number_field hm hmonth,
    number_field hd hday, number_field hh (by omega), number_field hn (by omega),
    number_field hs (by omega), number_field hf (by omega), Option.bind_eq_bind, Option.bind_some, hdate]
  rw [if_pos ⟨dateOf_valid, by omega, by omega, by omega, by omega⟩, hnumber, hepoch]
  exact congrArg some (by omega)

/-! ### Order -/

lemma field_lt (h : x < y) (hy : y < 10 ^ w) : lastDigits w x ++ r < lastDigits w y ++ r' :=
  append_lt_append (by simp) (lastDigits_lt h hy)

lemma field_eq {c : Char} (h : x = y) (hr : r < r') :
    lastDigits w x ++ c :: r < lastDigits w y ++ c :: r' := by
  rw [h]
  exact List.append_left_lt (List.cons_lt_cons_iff.mpr (.inr ⟨rfl, hr⟩))

/-- What lies before another lies in an earlier part, or earlier in the same one. -/
lemma part_lt {k : ℕ} (h : a < b) : a / k < b / k ∨ a / k = b / k ∧ a % k < b % k := by
  obtain hlt | heq := (Nat.div_le_div_right (c := k) h.le).lt_or_eq
  · exact .inl hlt
  · refine .inr ⟨heq, ?_⟩
    have ha := Nat.div_add_mod a k
    have hb := Nat.div_add_mod b k
    rw [heq] at ha
    omega

/-- The parts of two instants, from the day down. -/
lemma instant_lt (h : a < b) : a / 86400000 < b / 86400000 ∨ a / 86400000 = b / 86400000 ∧
    (a / 3600000 % 24 < b / 3600000 % 24 ∨ a / 3600000 % 24 = b / 3600000 % 24 ∧
      (a / 60000 % 60 < b / 60000 % 60 ∨ a / 60000 % 60 = b / 60000 % 60 ∧
        (a / 1000 % 60 < b / 1000 % 60 ∨ a / 1000 % 60 = b / 1000 % 60 ∧ a % 1000 < b % 1000))) := by
  have hdays : ∀ n, n / 86400000 = n / 3600000 / 24 := fun n => by rw [Nat.div_div_eq_div_mul]
  have hhours : ∀ n, n / 3600000 = n / 60000 / 60 := fun n => by rw [Nat.div_div_eq_div_mul]
  have hminutes : ∀ n, n / 60000 = n / 1000 / 60 := fun n => by rw [Nat.div_div_eq_div_mul]
  rw [hdays a, hdays b]
  obtain hlt | ⟨heq, hmilli⟩ := part_lt (k := 1000) h
  · obtain hlt | ⟨heq, hsecond⟩ := part_lt (k := 60) hlt
    · rw [← hminutes, ← hminutes] at hlt
      obtain hlt | ⟨heq, hminute⟩ := part_lt (k := 60) hlt
      · rw [← hhours, ← hhours] at hlt
        exact (part_lt (k := 24) hlt).imp_right fun ⟨h1, h2⟩ => ⟨h1, .inl h2⟩
      · rw [← hhours, ← hhours] at heq
        exact .inr ⟨by rw [heq], .inr ⟨by rw [heq], .inl hminute⟩⟩
    · rw [← hminutes, ← hminutes] at heq
      rw [hhours a, hhours b]
      exact .inr ⟨by rw [heq], .inr ⟨by rw [heq], .inr ⟨by rw [heq], .inl hsecond⟩⟩⟩
  · rw [hhours a, hhours b, hminutes a, hminutes b]
    exact .inr ⟨by rw [heq], .inr ⟨by rw [heq], .inr ⟨by rw [heq], .inr ⟨by rw [heq], hmilli⟩⟩⟩⟩

lemma utcText_lt (hb : (dateOf b).year ≤ 9999) (h : a < b) : utcText a < utcText b := by
  rw [String.lt_iff, utcText, utcText, rfc3339, rfc3339, String.toList_ofList, String.toList_ofList]
  obtain ⟨hmonth, hday⟩ := day_lt b
  obtain hdays | ⟨hdays, htime⟩ := instant_lt h
  · obtain hyear | ⟨hyear, hmonths | ⟨hmonths, hd⟩⟩ := after_before epoch_valid hdays
    · exact field_lt hyear (by omega)
    · exact field_eq hyear (field_lt hmonths hmonth)
    · exact field_eq hyear (field_eq hmonths (field_lt hd hday))
  · have hdate : dateOf a = dateOf b := by rw [dateOf, dateOf, hdays]
    rw [hdate]
    refine field_eq rfl (field_eq rfl (field_eq rfl ?_))
    obtain hh | ⟨hh, hn | ⟨hn, hs | ⟨hs, hf⟩⟩⟩ := htime
    · exact field_lt hh (by omega)
    · exact field_eq hh (field_lt hn (by omega))
    · exact field_eq hh (field_eq hn (field_lt hs (by omega)))
    · exact field_eq hh (field_eq hn (field_eq hs (field_lt hf (by omega))))

/-- An earlier instant lies in no later year. -/
lemma year_le (h : a ≤ b) : (dateOf a).year ≤ (dateOf b).year := by
  obtain hlt | heq := (Nat.div_le_div_right (c := 86400000) h).lt_or_eq
  · obtain hy | ⟨hy, -⟩ := after_before epoch_valid hlt
    · exact hy.le
    · exact hy.le
  · rw [dateOf, dateOf, heq]

/-! ### The stamps of the snapshots -/

lemma lt_monotonicUnixMs {previous now : ℕ}
    (h : (dateOf (Cleanliness.monotonicUnixMs previous now)).year ≤ 9999) :
    previous < Cleanliness.monotonicUnixMs previous now := by
  have hlt := lt_of_year h
  unfold Cleanliness.monotonicUnixMs at hlt ⊢
  omega

lemma lt_of_mem_stamps {previous : ℕ} {readings : List ℕ}
    (h : ∀ stamp ∈ stamps previous readings, (dateOf stamp).year ≤ 9999) :
    (∀ stamp ∈ stamps previous readings, previous < stamp) ∧
      (stamps previous readings).Pairwise (· < ·) := by
  induction readings generalizing previous with
  | nil => exact ⟨by simp [stamps], .nil⟩
  | cons now readings ih =>
    rw [stamps] at h ⊢
    obtain ⟨hfirst, hrest⟩ := List.forall_mem_cons.mp h
    obtain ⟨hlt, hpairwise⟩ := ih hrest
    have hprevious := lt_monotonicUnixMs hfirst
    exact ⟨List.forall_mem_cons.mpr ⟨hprevious, fun stamp hs => hprevious.trans (hlt stamp hs)⟩,
      List.pairwise_cons.mpr ⟨hlt, hpairwise⟩⟩

lemma snapshotKey_lt {roomId s t : String} (h : s < t) : snapshotKey roomId s < snapshotKey roomId t := by
  rw [String.lt_iff] at h ⊢
  simp only [snapshotKey, String.toList_append]
  exact List.append_left_lt h

/-- **Timestamps are right and ordered**, up to the end of the year 9999. -/
theorem timestamps_right_and_ordered :
    (∀ ms, (dateOf ms).year ≤ 9999 → Cleanliness.unixMsToRfc3339 (some ms) = utcText ms ∧
      parseRfc3339 (Cleanliness.unixMsToRfc3339 (some ms)) = some ms) ∧
    (∀ a b, (dateOf a).year ≤ 9999 → (dateOf b).year ≤ 9999 →
      (Cleanliness.unixMsToRfc3339 (some a) < Cleanliness.unixMsToRfc3339 (some b) ↔ a < b)) ∧
    (∀ roomId previous readings,
      (∀ stamp ∈ stamps previous readings, (dateOf stamp).year ≤ 9999) →
      ((stamps previous readings).map fun stamp =>
        snapshotKey roomId (Cleanliness.unixMsToRfc3339 (some stamp))).Pairwise (· < ·)) ∧
    ∀ unixMs, Cleanliness.unixMsToRfc3339 unixMs = FileTransfer.unixMsToRfc3339 unixMs := by
  have hlt : ∀ {a b}, (dateOf b).year ≤ 9999 → a < b →
      Cleanliness.unixMsToRfc3339 (some a) < Cleanliness.unixMsToRfc3339 (some b) :=
    fun {a b} hb h => by
      rw [unixMsToRfc3339_eq hb, unixMsToRfc3339_eq ((year_le h.le).trans hb)]
      exact utcText_lt hb h
  refine ⟨fun ms h => ?_, fun a b ha hb => ⟨fun h => ?_, hlt hb⟩, fun roomId previous readings h => ?_,
    fun unixMs => rfl⟩
  · rw [unixMsToRfc3339_eq h]
    exact ⟨rfl, parse_utcText h⟩
  · rcases Nat.lt_trichotomy a b with hab | rfl | hba
    · exact hab
    · exact absurd h (String.lt_irrefl _)
    · exact absurd h (String.lt_asymm (hlt ha hba))
  · refine List.pairwise_map.mpr ((lt_of_mem_stamps h).2.imp_of_mem fun {a b} _ hb hab => ?_)
    exact snapshotKey_lt (hlt (h b hb) hab)

lemma dateOf_newYear (h : ms / 86400000 = 19723) : dateOf ms = ⟨2024, 1, 1⟩ :=
  (eq_after epoch_valid (by decide) (by rw [h]; decide)).symm

/-- Two snapshots at the beginning of a year; the clock is set back between them. -/
theorem timestamps_right_and_ordered_sample :
    parseRfc3339 (Cleanliness.unixMsToRfc3339 (some 1704067200123)) = some 1704067200123 ∧
    Cleanliness.unixMsToRfc3339 (some 1704067200123) <
      Cleanliness.unixMsToRfc3339 (some 1704067200124) ∧
    ((stamps 0 [1704067200123, 5]).map fun stamp =>
      snapshotKey "room" (Cleanliness.unixMsToRfc3339 (some stamp))).Pairwise (· < ·) := by
  have h1 : (dateOf 1704067200123).year ≤ 9999 := by
    rw [dateOf_newYear rfl]
    decide
  have h2 : (dateOf 1704067200124).year ≤ 9999 := by
    rw [dateOf_newYear rfl]
    decide
  have hstamps : stamps 0 [1704067200123, 5] = [1704067200123, 1704067200124] := by decide
  refine ⟨(timestamps_right_and_ordered.1 _ h1).2,
    (timestamps_right_and_ordered.2.1 _ _ h1 h2).mpr (by decide),
    timestamps_right_and_ordered.2.2.1 "room" 0 [1704067200123, 5] ?_⟩
  rw [hstamps]
  exact List.forall_mem_cons.mpr ⟨h1, List.forall_mem_cons.mpr ⟨h2, by simp⟩⟩

end MouseKeeper.Desktop
