import Mathlib.Algebra.Order.Ring.Nat
import Mathlib.Algebra.Ring.Int.Defs
import Mathlib.Data.Int.Order.Basic
import Mathlib.Tactic.Common

/-!
# Rounding integers to a significand

The conversion of an integer to a binary floating-point number whose exponent is
large enough: the nearest multiple of the last place, and of two such multiples
the even one.  It changes nothing about an integer whose significand fits.
-/

set_option autoImplicit false

namespace Rounding

/-- The nearest multiple of `unit`; half-way between two, the even one. -/
def nearest (unit number : Nat) : Nat :=
  let quotient := number / unit
  let rest := number % unit
  unit * if 2 * rest < unit ∨ 2 * rest = unit ∧ quotient % 2 = 0 then quotient else quotient + 1

/-- The value of the last place of a significand of `precision` bits. -/
def lastPlace (precision number : Nat) : Nat := 2 ^ (number.log2 + 1 - precision)

def roundNat (precision number : Nat) : Nat := nearest (lastPlace precision number) number

def round (precision : Nat) (value : Int) : Int := value.sign * roundNat precision value.natAbs

/-- A significand of `precision` bits times a power of two. -/
def Representable (precision : Nat) (value : Int) : Prop :=
  ∃ significand exponent : Nat, significand < 2 ^ precision ∧
    value.natAbs = significand * 2 ^ exponent

theorem nearest_eq_self_iff {unit : Nat} (positive : 0 < unit) (number : Nat) :
    nearest unit number = number ↔ unit ∣ number := by
  constructor
  · intro same
    exact ⟨_, same.symm⟩
  · rintro ⟨quotient, rfl⟩
    have exactly : unit * quotient / unit = quotient := Nat.mul_div_cancel_left _ positive
    simp [nearest, exactly, positive]

theorem lastPlace_pos (precision number : Nat) : 0 < lastPlace precision number :=
  Nat.pow_pos (by omega)

theorem lastPlace_dvd_iff {precision : Nat} (number : Nat) :
    lastPlace precision number ∣ number ↔
      ∃ significand exponent : Nat, significand < 2 ^ precision ∧
        number = significand * 2 ^ exponent := by
  constructor
  · rintro ⟨significand, same⟩
    refine ⟨significand, number.log2 + 1 - precision, ?_, by rw [Nat.mul_comm]; exact same⟩
    have bound : number < 2 ^ (number.log2 + 1) := Nat.lt_log2_self
    by_contra large
    have product : 2 ^ (number.log2 + 1 - precision) * 2 ^ precision ≤ number :=
      (Nat.mul_le_mul_left _ (Nat.not_lt.mp large)).trans same.symm.le
    rw [← Nat.pow_add] at product
    have power : 2 ^ (number.log2 + 1) ≤ 2 ^ (number.log2 + 1 - precision + precision) :=
      Nat.pow_le_pow_right (by omega) (by omega)
    omega
  · rintro ⟨significand, exponent, small, same⟩
    by_cases zero : number = 0
    · rw [zero]
      exact Nat.dvd_zero _
    · by_cases fine : number.log2 + 1 - precision ≤ exponent
      · rw [lastPlace, same]
        rw [same] at fine
        exact (Nat.pow_dvd_pow 2 fine).mul_left significand
      · -- a smaller exponent makes the number too small
        have top : 2 ^ number.log2 ≤ number := Nat.log2_self_le zero
        have below : significand * 2 ^ exponent < 2 ^ precision * 2 ^ exponent :=
          Nat.mul_lt_mul_of_pos_right small (Nat.pow_pos (by omega))
        rw [← Nat.pow_add] at below
        have power : 2 ^ (precision + exponent) ≤ 2 ^ number.log2 :=
          Nat.pow_le_pow_right (by omega) (by omega)
        omega

theorem round_eq_self_iff (precision : Nat) (value : Int) :
    round precision value = value ↔ Representable precision value := by
  rw [Representable, ← lastPlace_dvd_iff,
    ← nearest_eq_self_iff (lastPlace_pos precision value.natAbs)]
  by_cases zero : value = 0
  · subst zero
    simp [round, nearest, lastPlace, roundNat]
  · rw [round, roundNat]
    have split := Int.sign_mul_natAbs value
    constructor
    · intro same
      have sizes := congrArg Int.natAbs same
      rwa [Int.natAbs_mul, Int.natAbs_sign_of_ne_zero zero, Nat.one_mul, Int.natAbs_natCast] at sizes
    · intro same
      rw [same, split]

theorem representable_of_lt {precision : Nat} {value : Int} (small : value.natAbs < 2 ^ precision) :
    Representable precision value :=
  ⟨value.natAbs, 0, small, by rw [Nat.pow_zero, Nat.mul_one]⟩

end Rounding
