import WebserverEthercat.Lib.Decimal

/-!
# Hexadecimal numbers and padding of `printf`

`upperHex` is `%N.NX`, `lowerHex` is `%N.Nx`; `leftJustified` is `%-Ns` and
`rightJustified` is `%Ns`.  The
text of a number is longer than `N` when the number needs more digits.
`sprintf` and `strcat` put a text into a block and fail when it does not fit.
-/

set_option autoImplicit false

namespace CString

def upperHexByte (digit : Nat) : UInt8 := UInt8.ofNat (if digit < 10 then 48 + digit else 55 + digit)

def lowerHexByte (digit : Nat) : UInt8 := UInt8.ofNat (if digit < 10 then 48 + digit else 87 + digit)

/-- The hexadecimal digits of a value, most significant first, at least `digits` of them. -/
def hexDigits (digits value : Nat) : List Nat :=
  List.replicate (digits - (Nat.digits 16 value).length) 0 ++ (Nat.digits 16 value).reverse

def upperHex (digits value : Nat) : List UInt8 := (hexDigits digits value).map upperHexByte

def lowerHex (digits value : Nat) : List UInt8 := (hexDigits digits value).map lowerHexByte

def leftJustified (width : Nat) (text : List UInt8) : List UInt8 :=
  text ++ List.replicate (width - text.length) 32

def rightJustified (width : Nat) (text : List UInt8) : List UInt8 :=
  List.replicate (width - text.length) 32 ++ text

def sprintf (block : Block) (text : List UInt8) : Option Block :=
  if text.length < block.length then some (terminated text ++ block.drop (text.length + 1))
  else none

/-- Copies the source with its terminator over the terminator of the destination. -/
def strcat (destination source : Block) : Option Block := do
  let length ← strlen destination
  let text ← cstring source
  let rest ← sprintf (destination.drop length) text
  return destination.take length ++ rest

/-! ## The digits -/

theorem hexDigits_lt {digits value digit : Nat} (member : digit ∈ hexDigits digits value) :
    digit < 16 := by
  rcases List.mem_append.mp member with zero | digit
  · rw [List.eq_of_mem_replicate zero]
    omega
  · exact Nat.digits_lt_base (by omega) (List.mem_reverse.mp digit)

theorem length_hexDigits (digits value : Nat) : digits ≤ (hexDigits digits value).length := by
  simp only [hexDigits, List.length_append, List.length_replicate, List.length_reverse]
  omega

theorem length_upperHex_le (digits limit value : Nat) (room : digits ≤ limit)
    (small : value < 16 ^ limit) : (upperHex digits value).length ≤ limit := by
  have length := (Nat.digits_length_le_iff (by omega : 1 < 16) value).mpr small
  simp only [upperHex, hexDigits, List.length_map, List.length_append, List.length_replicate,
    List.length_reverse]
  omega

theorem hexDigits_value (digits value : Nat) :
    (hexDigits digits value).foldl (fun sum digit => 16 * sum + digit) 0 = value := by
  have zeros (count : Nat) :
      (List.replicate count 0).foldl (fun sum digit => 16 * sum + digit) 0 = 0 := by
    induction count with
    | zero => rfl
    | succ count ih => simpa [List.replicate_succ] using ih
  have value_eq := Nat.ofDigits_digits 16 value
  rw [Nat.ofDigits_eq_foldr] at value_eq
  rw [hexDigits, List.foldl_append, zeros, List.foldl_reverse]
  simpa [Nat.add_comm] using value_eq

theorem hexDigits_two {value : Nat} (byte : value < 256) :
    hexDigits 2 value = [value / 16, value % 16] := by
  rcases Nat.eq_zero_or_pos value with rfl | positive
  · rfl
  · have low := Nat.digits_def' (by omega : 1 < 16) positive
    rcases Nat.eq_zero_or_pos (value / 16) with none | some
    · simp [hexDigits, low, none]
    · have high := Nat.digits_of_lt 16 (value / 16) (by omega) (by omega)
      simp [hexDigits, low, high]

/-- A value that needs more digits than are asked for gets them. -/
theorem length_lowerHex_large {digits value : Nat}
    (enough : digits ≤ (Nat.digits 16 value).length) :
    (lowerHex digits value).length = (Nat.digits 16 value).length := by
  simp [lowerHex, hexDigits, Nat.sub_eq_zero_of_le enough]

theorem length_lowerHex_small {digits value : Nat} (small : value < 16 ^ digits) :
    (lowerHex digits value).length = digits := by
  have length := (Nat.digits_length_le_iff (by omega : 1 < 16) value).mpr small
  simp only [lowerHex, hexDigits, List.length_map, List.length_append, List.length_replicate,
    List.length_reverse]
  omega

theorem mem_lowerHex {digits value : Nat} {byte : UInt8} (member : byte ∈ lowerHex digits value) :
    48 ≤ byte ∧ byte ≤ 57 ∨ 97 ≤ byte ∧ byte ≤ 102 := by
  obtain ⟨digit, here, rfl⟩ := List.mem_map.mp member
  have small := hexDigits_lt here
  revert small
  clear here member
  revert digit
  decide

/-! ## Texts in blocks -/

theorem sprintf_holds {block : Block} {text : List UInt8} (noNul : 0 ∉ text)
    (room : text.length < block.length) :
    ∃ written, sprintf block text = some written ∧ Holds written text ∧
      written.length = block.length := by
  refine ⟨terminated text ++ block.drop (text.length + 1), if_pos room, ?_, ?_⟩
  · exact ⟨noNul, block.drop (text.length + 1), by simp [terminated]⟩
  · simp only [terminated, List.length_append, List.length_map, List.length_cons,
      List.length_nil, List.length_drop]
    omega

theorem strcat_eq {destination source : Block} {front back : List UInt8}
    (first : Holds destination front) (second : Holds source back) :
    strcat destination source =
      (sprintf (destination.drop front.length) back).map (front.map some ++ ·) := by
  have kept : destination.take front.length = front.map some := by
    obtain ⟨rest, rfl⟩ := first.cells
    simp
  simp only [strcat, strlen_of_holds front destination first, cstring_of_holds back source second,
    Option.bind_eq_bind, Option.bind_some, kept]
  cases sprintf (destination.drop front.length) back <;> rfl

theorem strcat_holds {destination source : Block} {front back : List UInt8}
    (first : Holds destination front) (second : Holds source back)
    (room : (front ++ back).length < destination.length) :
    ∃ written, strcat destination source = some written ∧ Holds written (front ++ back) ∧
      written.length = destination.length := by
  rw [List.length_append] at room
  obtain ⟨tail, put, holds, length⟩ := sprintf_holds second.noNul
    (show back.length < (destination.drop front.length).length by
      rw [List.length_drop]
      omega)
  refine ⟨front.map some ++ tail, by rw [strcat_eq first second, put, Option.map_some], ?_, ?_⟩
  · obtain ⟨rest, rfl⟩ := holds.cells
    refine ⟨?_, rest, by simp⟩
    rw [List.mem_append, not_or]
    exact ⟨first.noNul, second.noNul⟩
  · rw [List.length_append, List.length_map, length, List.length_drop]
    omega

theorem strcat_full {destination source : Block} {front back : List UInt8}
    (first : Holds destination front) (second : Holds source back)
    (full : destination.length ≤ (front ++ back).length) : strcat destination source = none := by
  rw [List.length_append] at full
  rw [strcat_eq first second, sprintf, if_neg, Option.map_none]
  rw [List.length_drop]
  omega

end CString
