import Mathlib.Data.Nat.Notation
import Mathlib.Algebra.Order.Ring.Nat
import Mathlib.Tactic.Common

/-!
Decimal digits of a fixed width.

A number that is printed with leading zeros can be read back, and numbers of one width are
ordered as their texts are.
-/

namespace MouseKeeper.Digits

/-- The digits of a number, with zeros before them up to a width. -/
def padded (w n : ℕ) : List Char :=
  let digits := Nat.toDigits 10 n
  List.replicate (w - digits.length) '0' ++ digits

/-- The last digits of a number, so many of them. -/
def lastDigits : ℕ → ℕ → List Char
  | 0, _ => []
  | w + 1, n => lastDigits w (n / 10) ++ [Nat.digitChar (n % 10)]

def digitValue (c : Char) : Option ℕ := if c.isDigit then some (c.toNat - '0'.toNat) else none

/-- The number that the characters spell, if all of them are digits. -/
def number (l : List Char) : Option ℕ :=
  l.foldlM (fun n c => (digitValue c).map (n * 10 + ·)) 0

variable {w n a b : ℕ}

@[simp] lemma length_lastDigits : (lastDigits w n).length = w := by
  induction w generalizing n with
  | zero => rfl
  | succ w ih => simp [lastDigits, ih]

lemma lastDigits_zero : lastDigits w 0 = List.replicate w '0' := by
  induction w with
  | zero => rfl
  | succ w ih => rw [lastDigits, Nat.zero_div, ih, List.replicate_succ']; rfl

/-- Of a number that is not too long the last digits are all. -/
lemma padded_eq (hw : w ≠ 0) (hn : n < 10 ^ w) : padded w n = lastDigits w n := by
  induction w generalizing n with
  | zero => exact absurd rfl hw
  | succ w ih =>
    obtain hlt | hle := Nat.lt_or_ge n 10
    · rw [padded, Nat.toDigits_of_lt_base hlt, lastDigits, Nat.div_eq_of_lt hlt, lastDigits_zero,
        Nat.mod_eq_of_lt hlt]
      rfl
    · have hw' : w ≠ 0 := by
        rintro rfl
        omega
      have hdiv : n / 10 < 10 ^ w := by
        rw [pow_succ] at hn
        omega
      rw [lastDigits, ← ih hw' hdiv, padded, padded, Nat.toDigits_of_base_le (by decide) hle,
        List.length_append, List.length_singleton, Nat.add_sub_add_right, List.append_assoc]

lemma digitValue_digitChar (h : n < 10) : digitValue n.digitChar = some n := by
  have hall : ∀ n < 10, digitValue (Nat.digitChar n) = some n := by decide
  exact hall n h

/-- **The last digits are read back.** -/
theorem number_lastDigits (hn : n < 10 ^ w) : number (lastDigits w n) = some n := by
  induction w generalizing n with
  | zero =>
    cases Nat.lt_one_iff.mp hn
    rfl
  | succ w ih =>
    have hdiv : n / 10 < 10 ^ w := by
      rw [pow_succ] at hn
      omega
    have hmod : n % 10 < 10 := Nat.mod_lt n (by decide)
    have hhead := ih hdiv
    unfold number at hhead ⊢
    rw [lastDigits, List.foldlM_append, hhead]
    simp [digitValue_digitChar hmod, Nat.div_add_mod']

/-! ### Order -/

lemma append_lt_append {l l' r r' : List Char} (hlength : l.length = l'.length) (h : l < l') :
    l ++ r < l' ++ r' := by
  induction l generalizing l' with
  | nil =>
    cases List.length_eq_zero_iff.mp hlength.symm
    exact absurd h (List.not_lt_nil _)
  | cons c l ih =>
    cases l' with
    | nil => cases hlength
    | cons c' l' =>
      rw [List.cons_append, List.cons_append, List.cons_lt_cons_iff]
      exact (List.cons_lt_cons_iff.mp h).imp_right fun ⟨hc, hl⟩ => ⟨hc, ih (by simpa using hlength) hl⟩

lemma digitChar_lt (h : a < b) (hb : b < 10) : a.digitChar < b.digitChar := by
  have hall : ∀ b < 10, ∀ a < b, Nat.digitChar a < Nat.digitChar b := by decide
  exact hall b hb a h

/-- **Numbers of one width are ordered as their digits are.** -/
theorem lastDigits_lt (h : a < b) (hb : b < 10 ^ w) : lastDigits w a < lastDigits w b := by
  induction w generalizing a b with
  | zero => omega
  | succ w ih =>
    have hdiv : b / 10 < 10 ^ w := by
      rw [pow_succ] at hb
      omega
    obtain hlt | heq := (Nat.div_le_div_right (c := 10) h.le).lt_or_eq
    · exact append_lt_append (by simp) (ih hlt hdiv)
    · rw [lastDigits, lastDigits, heq]
      refine List.append_left_lt (List.cons_lt_cons_iff.mpr (.inl (digitChar_lt ?_ ?_))) <;> omega

end MouseKeeper.Digits
