import WebserverEthercat.Dump.Attribution
import WebserverEthercat.Dump.OctetString

/-!
# Integer objects

`SDO2string` reads an integer object through a pointer to an integer of C, which
is wider for the 24-bit types, and hands it to `sprintf`, where an integer
shorter than `int` is promoted.  The two fields of the text are compared with
the value of the bytes at the width of the object.
-/

set_option autoImplicit false

namespace WebserverEthercat

open CString

inductive IntegerType where
  | integer8
  | integer16
  | integer24
  | integer32
  | integer64
  | unsigned8
  | unsigned16
  | unsigned24
  | unsigned32
  | unsigned64
deriving DecidableEq, Repr

namespace IntegerType

/-- `ECT_INTEGER8` to `ECT_UNSIGNED64` -/
def dtype : IntegerType → UInt16
  | .integer8 => 0x0002
  | .integer16 => 0x0003
  | .integer24 => 0x0010
  | .integer32 => 0x0004
  | .integer64 => 0x0015
  | .unsigned8 => 0x0005
  | .unsigned16 => 0x0006
  | .unsigned24 => 0x0016
  | .unsigned32 => 0x0007
  | .unsigned64 => 0x001B

def isSigned : IntegerType → Bool
  | .integer8 | .integer16 | .integer24 | .integer32 | .integer64 => true
  | .unsigned8 | .unsigned16 | .unsigned24 | .unsigned32 | .unsigned64 => false

def octets : IntegerType → Nat
  | .integer8 | .unsigned8 => 1
  | .integer16 | .unsigned16 => 2
  | .integer24 | .unsigned24 => 3
  | .integer32 | .unsigned32 => 4
  | .integer64 | .unsigned64 => 8

def width (type : IntegerType) : Nat := 8 * type.octets

/-- The size of the integer that the pointer reads. -/
def cell : IntegerType → Nat
  | .integer8 | .unsigned8 => 1
  | .integer16 | .unsigned16 => 2
  | .integer24 | .unsigned24 | .integer32 | .unsigned32 => 4
  | .integer64 | .unsigned64 => 8

/-- The value of an unsigned number at the declared width and sign. -/
def value (type : IntegerType) (unsigned : Nat) : Int :=
  if type.isSigned then (BitVec.ofNat type.width unsigned).toInt else unsigned

/-- The integer that the pointer reads, out of the zero-filled `usdo`. -/
def argument (type : IntegerType) (unsigned : Nat) : Int :=
  if type.isSigned = true ∧ 2 ^ (8 * type.cell - 1) ≤ unsigned then
    (unsigned : Int) - 2 ^ (8 * type.cell)
  else unsigned

/-- The bits that it is printed from: what is shorter than `int` is promoted to `int`. -/
def promoted (type : IntegerType) : Nat := if type.cell = 8 then 64 else 32

/-- The unsigned number that `%x` takes it for. -/
def hexArgument (type : IntegerType) (unsigned : Nat) : Nat :=
  (type.argument unsigned % 2 ^ type.promoted).toNat

/-- A signed type that is shorter than `int`. -/
def narrow : IntegerType → Bool
  | .integer8 | .integer16 | .integer24 => true
  | _ => false

theorem octets_le_cell (type : IntegerType) : type.octets ≤ type.cell := by
  cases type <;> decide

theorem width_le_promoted (type : IntegerType) : type.width ≤ type.promoted := by
  cases type <;> decide

theorem octets_le (type : IntegerType) : type.octets ≤ 8 := by
  cases type <;> decide

end IntegerType

/-- A content of exactly the declared width. -/
structure IntegerContent (type : IntegerType) where
  bytes : List UInt8
  size : bytes.length = type.octets

namespace IntegerContent

variable {type : IntegerType}

def read (content : IntegerContent type) : Usdo :=
  SdoContent.read ⟨content.bytes, by
    have size := content.size
    have small := type.octets_le
    omega⟩

def unsigned (content : IntegerContent type) : Nat := littleEndian content.bytes

theorem unsigned_lt (content : IntegerContent type) : content.unsigned < 2 ^ type.width := by
  have small := littleEndian_lt content.bytes
  rw [content.size] at small
  rwa [IntegerType.width, Nat.pow_mul]

end IntegerContent

/-! ## The property -/

/-- What follows `0x`, up to the space. -/
def hexField (text : List UInt8) : List UInt8 := (text.drop 2).takeWhile (· ≠ 32)

def decimalField (text : List UInt8) : List UInt8 := ((text.drop 2).dropWhile (· ≠ 32)).drop 1

def readHex (digits : List UInt8) : Nat :=
  digits.foldl (fun sum digit => 16 * sum + (hexByteValue digit).toNat) 0

structure AtDeclaredWidth {type : IntegerType} (content : IntegerContent type)
    (text : List UInt8) : Prop where
  hexadecimal : readHex (hexField text) = content.unsigned
  /-- leading zeros apart -/
  digits : ((hexField text).dropWhile (· = 48)).length ≤ type.width / 4
  decimal : decimalField text = decimal (type.value content.unsigned)

/-- The digits counted with the leading zeros. -/
def Unpadded (type : IntegerType) (text : List UInt8) : Prop :=
  (hexField text).length ≤ type.width / 4

/-! ## The two fields -/

theorem fields_of_text {hex : List UInt8} (noSpace : 32 ∉ hex) (number : List UInt8) :
    hexField (ascii "0x" ++ hex ++ ascii " " ++ number) = hex ∧
      decimalField (ascii "0x" ++ hex ++ ascii " " ++ number) = number := by
  have goes : ∀ byte ∈ hex, decide (byte ≠ 32) = true := by
    intro byte member
    simp only [decide_eq_true_eq]
    intro same
    exact noSpace (same ▸ member)
  have behind : (ascii "0x" ++ hex ++ ascii " " ++ number).drop 2 = hex ++ 32 :: number := by
    simp [ascii]
  rw [hexField, decimalField, behind, List.takeWhile_append_of_pos goes,
    List.dropWhile_append_of_pos goes]
  simp

theorem space_not_mem_lowerHex (digits value : Nat) : 32 ∉ lowerHex digits value := by
  intro member
  rcases mem_lowerHex member with digit | letter
  · exact absurd digit.1 (by decide)
  · exact absurd letter.1 (by decide)

theorem readHex_lowerHex (digits value : Nat) : readHex (lowerHex digits value) = value := by
  have step (sum : Nat) (digit : Nat) (member : digit ∈ hexDigits digits value) :
      16 * sum + (hexByteValue (lowerHexByte digit)).toNat = 16 * sum + digit := by
    have small := hexDigits_lt member
    rw [hexByteValue_digit small, UInt8.toNat_ofNat', Nat.mod_eq_of_lt (by omega)]
  rw [readHex, lowerHex, List.foldl_map]
  exact (List.foldl_ext _ _ 0 step).trans (hexDigits_value digits value)

/-- Without its leading zeros the text of a number has no more digits than the number. -/
theorem length_significant_le {count digits value : Nat} (small : value < 16 ^ count) :
    ((lowerHex digits value).dropWhile (· = 48)).length ≤ count := by
  have length := (Nat.digits_length_le_iff (by omega : 1 < 16) value).mpr small
  have zeros : ∀ byte ∈ (List.replicate (digits - (Nat.digits 16 value).length) 0).map
      lowerHexByte, decide (byte = 48) = true := by
    intro byte member
    rw [List.map_replicate] at member
    rw [List.eq_of_mem_replicate member]
    rfl
  rw [lowerHex, hexDigits, List.map_append, List.dropWhile_append_of_pos zeros]
  apply (List.length_dropWhile_le _ _).trans
  rw [List.length_map, List.length_reverse]
  exact length

/-! ## The text of the dump -/

theorem IntegerContent.unsigned_read {type : IntegerType} (content : IntegerContent type) :
    content.read.unsigned type.cell = content.unsigned := by
  have wide := type.octets_le_cell
  have whole : content.bytes.take type.cell = content.bytes :=
    List.take_of_length_le (by rw [content.size]; exact wide)
  simp only [Usdo.unsigned, IntegerContent.read, SdoContent.read, List.take_append, whole,
    List.take_replicate, littleEndian_append_zeros]
  rfl

theorem integerText {type : IntegerType} (floats : FloatTexts) (content : IntegerContent type) :
    valueText floats type.dtype content.read =
      ascii "0x" ++ lowerHex (2 * type.cell) (type.hexArgument content.unsigned) ++ ascii " " ++
        decimal (type.argument content.unsigned) := by
  have bytes := content.unsigned_read
  cases signed : type.isSigned with
  | true =>
      have text : valueText floats type.dtype content.read = signedText type.cell content.read := by
        cases type <;> first | exact absurd signed (by decide) | rfl
      have read : content.read.signed type.cell = type.argument content.unsigned := by
        rw [Usdo.signed, IntegerType.argument, bytes]
        by_cases low : content.unsigned < 2 ^ (8 * type.cell - 1)
        · rw [if_pos low, if_neg fun high => absurd high.2 (Nat.not_le.mpr low)]
        · rw [if_neg low, if_pos ⟨signed, Nat.not_lt.mp low⟩]
      rw [text, signedText, read]
      rfl
  | false =>
      have text : valueText floats type.dtype content.read =
          unsignedText type.cell content.read := by
        cases type <;> first | exact absurd signed (by decide) | rfl
      have number : type.argument content.unsigned = content.unsigned := by
        simp [IntegerType.argument, signed]
      have kept : type.hexArgument content.unsigned = content.unsigned := by
        have fits := content.unsigned_lt.trans_le
          (Nat.pow_le_pow_right (by omega : 0 < 2) type.width_le_promoted)
        rw [IntegerType.hexArgument, number]
        exact congrArg Int.toNat (Int.emod_eq_of_lt (Int.natCast_nonneg _) (mod_cast fits))
      rw [text, unsignedText, bytes, number, kept]

/-- The promotion shows in the hexadecimal field of the 8 and 16 bit types, the missing sign
extension in the decimal field of the 24-bit type. -/
theorem argument_iff {type : IntegerType} {unsigned : Nat} (small : unsigned < 2 ^ type.width) :
    (type.hexArgument unsigned = unsigned ∧ type.argument unsigned = type.value unsigned) ↔
      (type.narrow = true → unsigned < 2 ^ (type.width - 1)) := by
  rw [IntegerType.value, BitVec.toInt_eq_toNat_cond, BitVec.toNat_ofNat, Nat.mod_eq_of_lt small]
  -- ten facts of arithmetic, one for the widths and the sign of each type
  cases type
  all_goals
    simp only [IntegerType.hexArgument, IntegerType.argument, IntegerType.isSigned,
      IntegerType.width, IntegerType.octets, IntegerType.cell, IntegerType.narrow,
      IntegerType.promoted] at small ⊢
    norm_num at small ⊢
    omega

/-- The bit that is the sign at the declared width is clear. -/
def IntegerContent.TopBitClear {type : IntegerType} (content : IntegerContent type) : Prop :=
  content.unsigned < 2 ^ (type.width - 1)

theorem atDeclaredWidth_iff {type : IntegerType} (floats : FloatTexts)
    (content : IntegerContent type) :
    AtDeclaredWidth content (valueText floats type.dtype content.read) ↔
      (type.narrow = true → content.TopBitClear) := by
  obtain ⟨hex, number⟩ := fields_of_text
    (space_not_mem_lowerHex (2 * type.cell) (type.hexArgument content.unsigned))
    (decimal (type.argument content.unsigned))
  rw [integerText, IntegerContent.TopBitClear, ← argument_iff content.unsigned_lt]
  constructor
  · intro rendered
    have hexadecimal := rendered.hexadecimal
    have decimalIs := rendered.decimal
    rw [hex, readHex_lowerHex] at hexadecimal
    rw [number] at decimalIs
    exact ⟨hexadecimal, decimal_injective decimalIs⟩
  · rintro ⟨kept, read⟩
    have small : content.unsigned < 16 ^ (type.width / 4) := by
      have bytes := content.unsigned_lt
      have nibbles : type.width = 4 * (type.width / 4) := by
        rw [IntegerType.width]
        omega
      rwa [nibbles, Nat.pow_mul] at bytes
    refine ⟨?_, ?_, ?_⟩
    · rw [hex, readHex_lowerHex, kept]
    · rw [hex, kept]
      exact length_significant_le small
    · rw [number, read]

/-- The 24-bit types are printed with the eight digits of 32 bits. -/
theorem unpadded_iff {type : IntegerType} {floats : FloatTexts} {content : IntegerContent type}
    (rendered : AtDeclaredWidth content (valueText floats type.dtype content.read)) :
    Unpadded type (valueText floats type.dtype content.read) ↔ type.width ≠ 24 := by
  rw [atDeclaredWidth_iff, IntegerContent.TopBitClear, ← argument_iff content.unsigned_lt]
    at rendered
  have fits : content.unsigned < 16 ^ (2 * type.cell) := by
    have bytes := content.unsigned_lt
    have wide := type.octets_le_cell
    rw [Nat.pow_mul]
    apply bytes.trans_le
    rw [IntegerType.width, Nat.pow_mul]
    exact Nat.pow_le_pow_right (by omega) wide
  rw [Unpadded, integerText, (fields_of_text (space_not_mem_lowerHex _ _) _).1, rendered.1,
    length_lowerHex_small fits]
  cases type <;> decide

/-- What `SDO2string` returns, and when its two fields are those of the declared width; the
second equivalence counts the digits with the leading zeros. -/
theorem rendered_at_width_iff {Error : Type} (floats : FloatTexts) (reader : Reader)
    {errors : ErrorList (Raised Error)} (clear : errors.ecatError = false) {type : IntegerType}
    (content : IntegerContent type) :
    ∃ text, sdo2string floats reader ⟨content.read, none⟩ type.dtype errors =
        (.value text, errors) ∧
      (AtDeclaredWidth content text ↔ (type.narrow = true → content.TopBitClear)) ∧
      (AtDeclaredWidth content text ∧ Unpadded type text ↔
        (type.narrow = true → content.TopBitClear) ∧ type.width ≠ 24) := by
  refine ⟨_, sdo2string_clear floats reader type.dtype rfl clear, atDeclaredWidth_iff floats content, ?_⟩
  rw [← atDeclaredWidth_iff floats content]
  exact and_congr_right unpadded_iff

def noFloats : FloatTexts := ⟨fun _ => [], fun _ => []⟩

def word : IntegerContent .unsigned16 := ⟨[0x37, 0x96], rfl⟩

theorem rendered_at_width_iff_word :
    ∃ text, sdo2string noFloats (.entry 0 0) ⟨word.read, none⟩ 0x0006 noErrors =
        (.value text, noErrors) ∧ AtDeclaredWidth word text ∧ Unpadded .unsigned16 text := by
  obtain ⟨text, returned, -, rendered⟩ := rendered_at_width_iff noFloats (.entry 0 0)
    (show noErrors.ecatError = false from rfl) word
  exact ⟨text, returned, rendered.mpr ⟨fun narrow => absurd narrow (by decide), by decide⟩⟩

/-- -1 as an object of 8 and of 24 bits -/
def minusOne8 : IntegerContent .integer8 := ⟨[0xff], rfl⟩

def minusOne24 : IntegerContent .integer24 := ⟨[0xff, 0xff, 0xff], rfl⟩

/-- Eight digits where two are due, and a large positive number for -1. -/
theorem negative_not_rendered :
    sdo2string noFloats (.entry 0 0) ⟨minusOne8.read, none⟩ 0x0002 noErrors =
        (.value (ascii "0xffffffff -1"), noErrors) ∧
      ¬ AtDeclaredWidth minusOne8 (ascii "0xffffffff -1") ∧
      sdo2string noFloats (.entry 0 0) ⟨minusOne24.read, none⟩ 0x0010 noErrors =
        (.value (ascii "0x00ffffff 16777215"), noErrors) ∧
      ¬ AtDeclaredWidth minusOne24 (ascii "0x00ffffff 16777215") := by
  have printed8 : valueText noFloats 0x0002 minusOne8.read = ascii "0xffffffff -1" := by
    decide +kernel
  have printed24 : valueText noFloats 0x0010 minusOne24.read = ascii "0x00ffffff 16777215" := by
    decide +kernel
  refine ⟨by rw [sdo2string_clear _ _ _ rfl rfl, SdoRead.target, printed8], ?_,
    by rw [sdo2string_clear _ _ _ rfl rfl, SdoRead.target, printed24], ?_⟩
  · intro rendered
    exact absurd rendered.hexadecimal (by decide +kernel)
  · intro rendered
    exact absurd rendered.decimal (by decide +kernel)

end WebserverEthercat
