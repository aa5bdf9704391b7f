import Mathlib.Data.Nat.Digits.Lemmas
import WebserverEthercat.Lib.CString

/-!
# Decimal numbers as C strings

`decimal value` is the canonical decimal text of an integer, and `atoi` reads
it back.
-/

set_option autoImplicit false

namespace CString

def digitByte (digit : Nat) : UInt8 := UInt8.ofNat (48 + digit)

def decimalNat (value : Nat) : List UInt8 :=
  if value = 0 then [digitByte 0] else (Nat.digits 10 value).reverse.map digitByte

def decimal : Int → List UInt8
  | .ofNat value => decimalNat value
  | .negSucc value => 45 :: decimalNat (value + 1)

theorem digitByte_digit {digit : Nat} (small : digit < 10) :
    isdigit (digitByte digit) = true ∧ (digitByte digit).toNat - 48 = digit := by
  revert digit
  decide

theorem isdigit_not_special {byte : UInt8} (digit : isdigit byte = true) :
    byte ≠ 0 ∧ byte ≠ 43 ∧ byte ≠ 45 ∧ isspace byte = false := by
  simp only [isdigit, Bool.decide_and, Bool.and_eq_true, decide_eq_true_eq,
    UInt8.le_iff_toNat_le, ← UInt8.toNat_inj, ne_eq, isspace, Bool.decide_or, Bool.or_eq_false_iff,
    Bool.and_eq_false_iff, decide_eq_false_iff_not, UInt8.reduceToNat] at digit ⊢
  omega

/-- The text of a natural number is that of its digits, most significant first. -/
theorem decimalNat_digits (value : Nat) :
    ∃ digits : List Nat, decimalNat value = digits.map digitByte ∧ digits ≠ [] ∧
      (∀ digit ∈ digits, digit < 10) ∧
      digits.foldl (fun sum digit => 10 * sum + digit) 0 = value := by
  by_cases zero : value = 0
  · refine ⟨[0], by simp [decimalNat, zero], by simp, by simp, by simp [zero]⟩
  · refine ⟨(Nat.digits 10 value).reverse, by simp [decimalNat, zero], ?_, ?_, ?_⟩
    · simpa [Nat.digits_eq_nil_iff_eq_zero] using zero
    · intro digit member
      exact Nat.digits_lt_base (by omega) (List.mem_reverse.mp member)
    · have value_eq := Nat.ofDigits_digits 10 value
      rw [Nat.ofDigits_eq_foldr] at value_eq
      rw [List.foldl_reverse]
      simpa [Nat.add_comm] using value_eq

theorem isdigit_of_mem_decimalNat {value : Nat} {byte : UInt8}
    (member : byte ∈ decimalNat value) : isdigit byte = true := by
  obtain ⟨digits, same, -, small, -⟩ := decimalNat_digits value
  rw [same] at member
  obtain ⟨digit, here, rfl⟩ := List.mem_map.mp member
  exact (digitByte_digit (small digit here)).1

theorem decimalNat_ne_nil (value : Nat) : decimalNat value ≠ [] := by
  obtain ⟨digits, same, nonempty, -, -⟩ := decimalNat_digits value
  simpa [same] using nonempty

theorem mem_decimal {value : Int} {byte : UInt8} (member : byte ∈ decimal value) :
    byte = 45 ∨ isdigit byte = true := by
  cases value with
  | ofNat value => exact .inr (isdigit_of_mem_decimalNat member)
  | negSucc value =>
      rcases List.mem_cons.mp member with minus | digit
      · exact .inl minus
      · exact .inr (isdigit_of_mem_decimalNat digit)

theorem decimal_ne_nil (value : Int) : decimal value ≠ [] := by
  cases value with
  | ofNat value => exact decimalNat_ne_nil value
  | negSucc value => simp [decimal]

theorem decimal_not_isspace {value : Int} {byte : UInt8} (member : byte ∈ decimal value) :
    isspace byte = false := by
  rcases mem_decimal member with minus | digit
  · subst minus
    rfl
  · exact (isdigit_not_special digit).2.2.2

theorem zero_not_mem_decimal (value : Int) : 0 ∉ decimal value := by
  intro member
  rcases mem_decimal member with minus | digit
  · simp at minus
  · exact (isdigit_not_special digit).1 rfl

theorem length_decimalNat_le {value count : Nat} (positive : 0 < count)
    (small : value < 10 ^ count) : (decimalNat value).length ≤ count := by
  by_cases zero : value = 0
  · have single : (decimalNat value).length = 1 := by simp [decimalNat, zero]
    omega
  · have digits := (Nat.digits_length_le_iff (by omega : 1 < 10) value).mpr small
    simpa [decimalNat, zero] using digits

theorem length_decimal_le (value : Int) (count : Nat) (positive : 0 < count)
    (small : value.natAbs < 10 ^ count) : (decimal value).length ≤ count + 1 := by
  cases value with
  | ofNat value =>
      have length := length_decimalNat_le positive small
      exact Nat.le_succ_of_le length
  | negSucc value => exact Nat.succ_le_succ (length_decimalNat_le positive small)

/-! ## Reading it back -/

theorem digitsFrom_of_holds (digits : List Nat) (small : ∀ digit ∈ digits, digit < 10) :
    ∀ (sum : Nat) (block : Block), Holds block (digits.map digitByte) →
      digitsFrom sum block = some (digits.foldl (fun sum digit => 10 * sum + digit) sum) := by
  induction digits with
  | nil =>
      intro sum block holds
      obtain ⟨rest, rfl⟩ := (holds_nil_iff block).mp holds
      rfl
  | cons digit digits ih =>
      intro sum block holds
      obtain ⟨-, rest, rfl, tail⟩ := (holds_cons_iff ..).mp holds
      obtain ⟨isDigit, value⟩ := digitByte_digit (small digit List.mem_cons_self)
      have later := ih (fun other member => small other (List.mem_cons_of_mem _ member))
        (10 * sum + digit) rest tail
      simp only [digitsFrom, isDigit, if_true, value, later, List.foldl_cons]

/-- A sign of a decimal text, when there is one. -/
inductive DecimalSign where
  | none
  | plus
  | minus
deriving DecidableEq, Repr

def DecimalSign.text : DecimalSign → List UInt8
  | .none => []
  | .plus => [43]
  | .minus => [45]

def DecimalSign.apply : DecimalSign → Nat → Int
  | .none, value => value
  | .plus, value => value
  | .minus, value => -value

/-- Digits behind an optional sign; there may be leading zeros. -/
structure DecimalText where
  sign : DecimalSign
  digits : List Nat
  nonempty : digits ≠ []
  decimalDigits : ∀ digit ∈ digits, digit < 10
deriving Repr

namespace DecimalText

def text (number : DecimalText) : List UInt8 := number.sign.text ++ number.digits.map digitByte

def value (number : DecimalText) : Int :=
  number.sign.apply (number.digits.foldl (fun sum digit => 10 * sum + digit) 0)

theorem mem_text {number : DecimalText} {byte : UInt8} (member : byte ∈ number.text) :
    byte = 43 ∨ byte = 45 ∨ isdigit byte = true := by
  rcases List.mem_append.mp member with sign | digit
  · cases same : number.sign <;> simp [same, DecimalSign.text] at sign
    · exact .inl sign
    · exact .inr (.inl sign)
  · obtain ⟨value, inside, rfl⟩ := List.mem_map.mp digit
    exact .inr (.inr (digitByte_digit (number.decimalDigits value inside)).1)

theorem not_isspace {number : DecimalText} {byte : UInt8} (member : byte ∈ number.text) :
    isspace byte = false := by
  rcases mem_text member with rfl | rfl | digit
  · rfl
  · rfl
  · exact (isdigit_not_special digit).2.2.2

theorem noNul (number : DecimalText) : 0 ∉ number.text := by
  intro member
  rcases mem_text member with plus | minus | digit
  · cases plus
  · cases minus
  · exact (isdigit_not_special digit).1 rfl

theorem text_ne_nil (number : DecimalText) : number.text ≠ [] := by
  simp [text, number.nonempty]

theorem skipSpaces_text {number : DecimalText} {block : Block} (holds : Holds block number.text) :
    skipSpaces block = some 0 := by
  refine skipSpaces_of_holds [] (by simp) number.text ?_ block holds
  intro byte rest same
  have member : byte ∈ number.text := by rw [same]; exact List.mem_cons_self
  simp [not_isspace member]

/-- `strtol` reads the integer, up to the range of `long`. -/
theorem strtol_text {number : DecimalText} {block : Block} (holds : Holds block number.text) :
    strtol block = some (max (-2 ^ 63) (min (2 ^ 63 - 1) number.value)) := by
  have start := skipSpaces_text holds
  obtain ⟨sign, digits, nonempty, small⟩ := number
  cases sign with
  | none =>
      obtain ⟨digit, rest, rfl⟩ := List.exists_cons_of_ne_nil nonempty
      have read := digitsFrom_of_holds (digit :: rest) small 0 block holds
      obtain ⟨-, tail, rfl, -⟩ := (holds_cons_iff ..).mp holds
      obtain ⟨-, notPlus, notMinus, -⟩ :=
        isdigit_not_special (digitByte_digit (small digit List.mem_cons_self)).1
      simp [strtol, start, notPlus, notMinus, read, value, DecimalSign.apply]
  | plus =>
      obtain ⟨-, rest, rfl, tail⟩ := (holds_cons_iff ..).mp holds
      have read := digitsFrom_of_holds digits small 0 rest tail
      simp [strtol, start, read, value, DecimalSign.apply]
  | minus =>
      obtain ⟨-, rest, rfl, tail⟩ := (holds_cons_iff ..).mp holds
      have read := digitsFrom_of_holds digits small 0 rest tail
      simp [strtol, start, read, value, DecimalSign.apply]

end DecimalText

theorem exists_decimalText (value : Int) :
    ∃ number : DecimalText, number.text = decimal value ∧ number.value = value := by
  cases value with
  | ofNat value =>
      obtain ⟨digits, same, nonempty, small, sum⟩ := decimalNat_digits value
      exact ⟨⟨.none, digits, nonempty, small⟩, same.symm, congrArg Int.ofNat sum⟩
  | negSucc value =>
      obtain ⟨digits, same, nonempty, small, sum⟩ := decimalNat_digits (value + 1)
      refine ⟨⟨.minus, digits, nonempty, small⟩, ?_, ?_⟩
      · rw [decimal, same]
        rfl
      · rw [DecimalText.value, sum]
        rfl

theorem digitsFrom_decimalNat (value : Nat) :
    digitsFrom 0 (terminated (decimalNat value)) = some value := by
  obtain ⟨digits, same, -, small, sum⟩ := decimalNat_digits value
  have noNul : 0 ∉ decimalNat value := zero_not_mem_decimal (.ofNat value)
  rw [same] at noNul ⊢
  rw [digitsFrom_of_holds digits small 0 _ (holds_terminated noNul), sum]

theorem decimalNat_injective {first second : Nat} (same : decimalNat first = decimalNat second) :
    first = second := by
  have read := digitsFrom_decimalNat first
  rw [same, digitsFrom_decimalNat] at read
  exact (Option.some.inj read).symm

theorem minus_ne_decimalNat (first : List UInt8) (second : Nat) :
    45 :: first ≠ decimalNat second := by
  intro same
  have digit : isdigit 45 = true :=
    @isdigit_of_mem_decimalNat second 45 (same ▸ List.mem_cons_self)
  cases digit

theorem decimal_injective {first second : Int} (same : decimal first = decimal second) :
    first = second := by
  cases first with
  | ofNat first =>
      cases second with
      | ofNat second => exact congrArg Int.ofNat (decimalNat_injective same)
      | negSucc second => exact absurd same.symm (minus_ne_decimalNat _ _)
  | negSucc first =>
      cases second with
      | ofNat second => exact absurd same (minus_ne_decimalNat _ _)
      | negSucc second =>
          have magnitudes := decimalNat_injective (List.cons.inj same).2
          exact congrArg Int.negSucc (Nat.succ.inj magnitudes)

theorem strtol_decimal {value : Int} {block : Block} (holds : Holds block (decimal value)) :
    strtol block = some (max (-2 ^ 63) (min (2 ^ 63 - 1) value)) := by
  obtain ⟨number, text, same⟩ := exists_decimalText value
  rw [← text] at holds
  rw [DecimalText.strtol_text holds, same]

theorem atoi_decimal {value : Int} {block : Block} (holds : Holds block (decimal value))
    (low : -2 ^ 63 ≤ value) (high : value < 2 ^ 63) :
    atoi block = some (Int32.ofInt value) := by
  have clamped : max (-2 ^ 63) (min (2 ^ 63 - 1) value) = value := by omega
  rw [atoi, strtol_decimal holds, clamped, Option.map_some]

end CString
