import F2b.Lib.CString

-- Decimal integers as texts, and what `atoi` makes of them.

namespace CString

inductive Sign
  | absent | plus | minus
  deriving DecidableEq

namespace Sign

def text : Sign → CString
  | absent => []
  | plus   => ['+']
  | minus  => ['-']

def apply : Sign → Nat → Int
  | absent, n => n
  | plus,   n => n
  | minus,  n => -n

end Sign

-- The text of an integer that fits an `int`: an optional sign and digits.
structure Decimal where
  sign    : Sign
  digits  : CString
  ne_nil  : digits ≠ []
  isdigit : ∀ c ∈ digits, isdigit c
  ge      : -2 ^ 31 ≤ sign.apply (ofDigits digits)
  lt      : sign.apply (ofDigits digits) < 2 ^ 31

namespace Decimal

def text (d : Decimal) : CString :=
  d.sign.text ++ d.digits

def val (d : Decimal) : Int :=
  d.sign.apply (ofDigits d.digits)

theorem ne_sign_of_isdigit {c : Char} (h : CString.isdigit c) : c ≠ '-' ∧ c ≠ '+' := by
  constructor <;> rintro rfl <;> exact absurd h (by decide)

theorem signed_text (d : Decimal) : signed d.text = (decide (d.sign = .minus), d.digits) := by
  obtain ⟨sign, digits, hn, hd, _, _⟩ := d
  obtain ⟨c, ds, rfl⟩ := List.exists_cons_of_ne_nil hn
  have hc := hd c List.mem_cons_self
  have ⟨hm, hp⟩ := ne_sign_of_isdigit hc
  have hs : isspace c = false := Bool.eq_false_iff.mpr (not_isspace_of_isdigit hc)
  cases sign
  case absent => simp [signed, text, Sign.text, hs, hm, hp]
  all_goals rfl

theorem strtol_text (d : Decimal) : d.text.strtol = d.val := by
  have ht : d.digits.takeWhile CString.isdigit = d.digits := List.takeWhile_eq_self_iff.mpr d.isdigit
  have hg := d.ge
  have hl := d.lt
  simp only [strtol, signed_text, ht, val]
  cases h : d.sign <;> simp only [h, Sign.apply] at hg hl
  case minus => simp [Sign.apply]; omega
  all_goals simp [Sign.apply]; omega

theorem atoi_text (d : Decimal) : d.text.atoi = d.val := by
  have hg := d.ge
  have hl := d.lt
  rw [atoi, strtol_text, toInt32]
  simp only [val] at hg hl ⊢
  omega

end Decimal

def number (s : CString) : Int :=
  let (neg, rest) := signed s
  let n : Int := ofDigits (rest.takeWhile isdigit)
  if neg then -n else n

-- A number is read into a `short` as it is if and only if it fits.
theorem toShort_atoi_eq_iff (s : CString) :
    toShort s.atoi = s.number ↔ -2 ^ 15 ≤ s.number ∧ s.number < 2 ^ 15 := by
  rw [atoi, strtol, number]
  obtain ⟨neg, rest⟩ := signed s
  cases neg <;> simp only [toShort, toInt32, if_true, Bool.false_eq_true, if_false] <;> omega

end CString
