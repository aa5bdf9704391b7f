import WebserverEthercat.Festo
import WebserverEthercat.Lib.Rounding
import WebserverEthercat.Pdo.InputSection

/-!
# The values in `/pdo.json`

`get_pdo_input_value_festo_motor` returns a field of the input image as a
`float`, and `handle_get_request` converts it back to `int`.  The significand of
a `float` has 24 bits, so a 32-bit field can come out changed.
-/

set_option autoImplicit false

namespace WebserverEthercat

open CString Rounding

/-! ## The input image -/

abbrev InputImage := Vector UInt8 13

def InputImage.bytesAt (image : InputImage) (position width : Nat) : List UInt8 :=
  (image.toList.drop position).take width

/-- The packed record that is laid over the image. -/
def FestoMotorInputs.overlay (image : InputImage) : FestoMotorInputs where
  statusWord := UInt16.ofNat (littleEndian (image.bytesAt 0 2))
  modesOfOperationDispaly := (UInt8.ofNat (littleEndian (image.bytesAt 2 1))).toInt8
  positionActualValue := (UInt32.ofNat (littleEndian (image.bytesAt 3 4))).toInt32
  velocityActualValue := (UInt32.ofNat (littleEndian (image.bytesAt 7 4))).toInt32
  torqueActualValue := (UInt16.ofNat (littleEndian (image.bytesAt 11 2))).toInt16

/-! ## The value of a key -/

/-- `(float)value`; all values of a `float` here are integers. -/
def toFloat (value : Int) : Int := round 24 value

def getPdoInputValueFestoMotor (inputs : FestoMotorInputs) (indexSub : List UInt8) : Int :=
  if indexSub = ascii "0x6041:0x00" then toFloat inputs.statusWord.toNat
  else if indexSub = ascii "0x6061:0x00" then toFloat inputs.modesOfOperationDispaly.toInt
  else if indexSub = ascii "0x6064:0x00" then toFloat inputs.positionActualValue.toInt
  else if indexSub = ascii "0x606C:0x00" then toFloat inputs.velocityActualValue.toInt
  else if indexSub = ascii "0x6077:0x00" then toFloat inputs.torqueActualValue.toInt
  else 0

def InInt (value : Int) : Prop := -2 ^ 31 ≤ value ∧ value < 2 ^ 31

instance : DecidablePred InInt := fun value =>
  inferInstanceAs (Decidable (-2 ^ 31 ≤ value ∧ value < 2 ^ 31))

/-- `int value = ..`; what a `float` outside of the range gives is not specified. -/
def polledValue (unspecified : Int) (inputs : FestoMotorInputs) (indexSub : List UInt8) : Int :=
  let value := getPdoInputValueFestoMotor inputs indexSub
  if InInt value then value else unspecified

/-! ## `pdo.txt` of the drive -/

def outputRows : List PdoRow :=
  [⟨0x00, 0, 0x6040, 0, 16, some ⟨6, ascii "Controlword"⟩⟩,
    ⟨0x02, 0, 0x6060, 0, 8, some ⟨2, ascii "Modes of operation"⟩⟩,
    ⟨0x03, 0, 0x607A, 0, 32, some ⟨4, ascii "Target position"⟩⟩,
    ⟨0x07, 0, 0x6081, 0, 32, some ⟨7, ascii "Profile velocity"⟩⟩,
    ⟨0x0B, 0, 0x60FF, 0, 32, some ⟨4, ascii "Target velocity"⟩⟩,
    ⟨0x0F, 0, 0x6071, 0, 16, some ⟨3, ascii "Target torque"⟩⟩,
    ⟨0x11, 0, 0x60B1, 0, 32, some ⟨4, ascii "Velocity offset"⟩⟩,
    ⟨0x15, 0, 0x60B2, 0, 16, some ⟨3, ascii "Torque offset"⟩⟩]

def inputRows : List PdoRow :=
  [⟨0x18, 0, 0x6041, 0, 16, some ⟨6, ascii "Statusword"⟩⟩,
    ⟨0x1A, 0, 0x6061, 0, 8, some ⟨2, ascii "Modes of operation display"⟩⟩,
    ⟨0x1B, 0, 0x6064, 0, 32, some ⟨4, ascii "Position actual value"⟩⟩,
    ⟨0x1F, 0, 0x606C, 0, 32, some ⟨4, ascii "Velocity actual value"⟩⟩,
    ⟨0x23, 0, 0x6077, 0, 16, some ⟨3, ascii "Torque actual value"⟩⟩]

def outputLines : List MapLine :=
  .heading 2 .outputs :: outputRows.map .row ++ [.row ⟨0x17, 0, 0, 0, 8, none⟩]

def inputLines : List MapLine := inputRows.map .row ++ [.row ⟨0x25, 0, 0, 0, 8, none⟩]

def drivePdoLines : List (List UInt8) :=
  outputLines.flatMap MapLine.pdoLines ++ (inputsHeading.pdoLines ++
    (inputLines.flatMap MapLine.pdoLines ++ [ascii "End slaveinfo, close socket"]))

example : (PdoRow.text ⟨0x1B, 0, 0x6064, 0, 32, some ⟨4, ascii "Position actual value"⟩⟩) =
    ascii "  [0x001B.0] 0x6064:0x00 0x20 INTEGER32    Position actual value\n" := by decide +kernel

/-- `INTEGER8`, `INTEGER16` and `INTEGER32` are signed. -/
def PdoRow.signed (row : PdoRow) : Bool :=
  match row.description with
  | some description => description.dtype.toNat ∈ [2, 3, 4]
  | none => false

/-- The integer at the position of an input row; the inputs are behind 0x18 bytes of outputs. -/
def PdoRow.imageValue (image : InputImage) (row : PdoRow) : Int :=
  let number := littleEndian (image.bytesAt (row.absOffset - 0x18).toNat (row.bitlen.toNat / 8))
  if row.signed ∧ 2 ^ (row.bitlen.toNat - 1) ≤ number then number - 2 ^ row.bitlen.toNat
  else number

/-- `/pdo.json` has the integer of each input row, and no conversion to `int` leaves its range. -/
def PolledExactly (json : JsonC) (unspecified : Int) (image : InputImage) : Prop :=
  ∃ jsonObj, pdoJson json (polledValue unspecified (.overlay image)) (joined drivePdoLines) =
      some jsonObj ∧
    ∀ row ∈ inputRows, InInt (getPdoInputValueFestoMotor (.overlay image) row.indexSub) ∧
      (row.indexSub, row.imageValue image) ∈ json.entries jsonObj

/-! ## The fields of the image -/

theorem littleEndian_bytesAt_lt (image : InputImage) (position width : Nat) :
    littleEndian (image.bytesAt position width) < 256 ^ width := by
  apply (littleEndian_lt _).trans_le
  apply Nat.pow_le_pow_right (by omega)
  rw [InputImage.bytesAt, List.length_take]
  exact Nat.min_le_left _ _

theorem imageValue_signed (image : InputImage) {row : PdoRow} {position width : Nat}
    (signed : row.signed = true) (offset : (row.absOffset - 0x18).toNat = position)
    (bits : row.bitlen.toNat = 8 * width) (positive : 0 < width) :
    row.imageValue image =
      (BitVec.ofNat (8 * width) (littleEndian (image.bytesAt position width))).toInt := by
  have small : littleEndian (image.bytesAt position width) < 2 ^ (8 * width) := by
    rw [Nat.pow_mul]
    exact littleEndian_bytesAt_lt image position width
  have exactly : 8 * width / 8 = width := Nat.mul_div_cancel_left width (by omega)
  obtain ⟨low, rest⟩ : ∃ low, 8 * width = low + 1 := ⟨8 * width - 1, by omega⟩
  rw [PdoRow.imageValue, offset, bits, exactly, signed, BitVec.toInt_eq_toNat_cond,
    BitVec.toNat_ofNat, Nat.mod_eq_of_lt small]
  generalize littleEndian (image.bytesAt position width) = number at small ⊢
  rw [rest, Nat.pow_succ] at *
  by_cases negative : 2 ^ low ≤ number
  · simp [negative]
    omega
  · simp [negative]
    omega

/-- Each row has the value of the field that its key stands for. -/
theorem inputRows_imageValue (image : InputImage) :
    inputRows.map (fun row => (row.indexSub, row.imageValue image)) =
      [(ascii "0x6041:0x00", ((FestoMotorInputs.overlay image).statusWord.toNat : Int)),
        (ascii "0x6061:0x00", (FestoMotorInputs.overlay image).modesOfOperationDispaly.toInt),
        (ascii "0x6064:0x00", (FestoMotorInputs.overlay image).positionActualValue.toInt),
        (ascii "0x606C:0x00", (FestoMotorInputs.overlay image).velocityActualValue.toInt),
        (ascii "0x6077:0x00", (FestoMotorInputs.overlay image).torqueActualValue.toInt)] := by
  have keys : inputRows.map PdoRow.indexSub = [ascii "0x6041:0x00", ascii "0x6061:0x00",
      ascii "0x6064:0x00", ascii "0x606C:0x00", ascii "0x6077:0x00"] := by decide +kernel
  have small := littleEndian_bytesAt_lt image 0 2
  have word : (UInt16.ofNat (littleEndian (image.bytesAt 0 2))).toNat =
      littleEndian (image.bytesAt 0 2) := by
    rw [UInt16.toNat_ofNat']
    exact Nat.mod_eq_of_lt small
  simp only [inputRows, List.map_cons, List.map_nil, List.cons.injEq, and_true] at keys ⊢
  obtain ⟨statusWord, modes, position, velocity, torque⟩ := keys
  rw [statusWord, modes, position, velocity, torque]
  refine ⟨congrArg _ (congrArg Int.ofNat word.symm), congrArg _ ?_, congrArg _ ?_, congrArg _ ?_,
    congrArg _ ?_⟩
  · exact @imageValue_signed image _ 2 1 rfl rfl rfl (by omega)
  · exact @imageValue_signed image _ 3 4 rfl rfl rfl (by omega)
  · exact @imageValue_signed image _ 7 4 rfl rfl rfl (by omega)
  · exact @imageValue_signed image _ 11 2 rfl rfl rfl (by omega)

theorem getPdoInputValue_row (image : InputImage) :
    ∀ row ∈ inputRows, getPdoInputValueFestoMotor (.overlay image) row.indexSub =
      toFloat (row.imageValue image) := by
  have each : ∀ entry ∈ inputRows.map (fun row => (row.indexSub, row.imageValue image)),
      getPdoInputValueFestoMotor (.overlay image) entry.1 = toFloat entry.2 := by
    rw [inputRows_imageValue]
    simp only [List.forall_mem_cons, List.not_mem_nil, IsEmpty.forall_iff, implies_true, and_true]
    exact ⟨rfl, rfl, rfl, rfl, rfl⟩
  exact fun row member => each _ (List.mem_map.mpr ⟨row, member, rfl⟩)

/-! ## The answer -/

theorem drivePdoLines_quiet : ∀ text ∈ outputLines.flatMap MapLine.pdoLines,
    ¬ inputsMarker <:+: text := by
  decide +kernel

theorem inputLines_plain : ∀ line ∈ inputLines, PlainLine line := by
  have checked : ∀ row ∈ inputRows ++ [⟨0x25, 0, 0, 0, 8, none⟩],
      (0 ≤ row.absBit ∧ row.absBit ≤ 7 ∧ ∀ description ∈ row.description,
        description.name.length ≤ 40) ∧ 10 ∉ row.text.dropLast ∧
      (∀ marker ∈ markers, ¬ marker <:+: row.text.dropLast) ∧ 0 ∉ row.text := by decide +kernel
  intro line member
  have row : ∃ row ∈ inputRows ++ [⟨0x25, 0, 0, 0, 8, none⟩], line = .row row := by
    rcases List.mem_append.mp member with named | filler
    · obtain ⟨row, inside, rfl⟩ := List.mem_map.mp named
      exact ⟨row, List.mem_append_left _ inside, rfl⟩
    · exact ⟨_, List.mem_append_right _ (List.mem_singleton_self _), List.mem_singleton.mp filler⟩
  obtain ⟨row, inside, rfl⟩ := row
  obtain ⟨⟨low, high, fits⟩, oneLine, unmarked, noNul⟩ := checked row inside
  exact ⟨low, high, fits, ⟨oneLine, unmarked⟩, noNul⟩

/-- The answer has the value of each input row and no other for its key. -/
theorem pdoJson_inputRows (json : JsonC) (inputValue : List UInt8 → Int) :
    ∃ jsonObj, pdoJson json inputValue (joined drivePdoLines) = some jsonObj ∧
      ∀ row ∈ inputRows, ∀ value, (row.indexSub, value) ∈ json.entries jsonObj ↔
        value = inputValue row.indexSub := by
  obtain ⟨reader, read, keys, -⟩ := @readers_at_heading json inputValue _ drivePdoLines_quiet _
    inputLines_plain _ (show drivePdoLines = _ from rfl)
  have values := PdoReader.run_values inputValue _ read (by simp [json.entries_newObject])
  have seen : ∀ row ∈ inputRows, row.ServerSees := by decide +kernel
  refine ⟨reader.jsonObj, ?_, fun row member value => ⟨fun inside => values _ inside, ?_⟩⟩
  · rw [PdoReader.reads] at read
    rw [pdoJson, read]
    rfl
  · rintro rfl
    have key := (keys row.indexSub).mpr ⟨row, by simp [inputLines, member], seen row member, rfl⟩
    obtain ⟨⟨other, value⟩, inside, rfl⟩ := List.mem_map.mp key
    obtain rfl : value = inputValue row.indexSub := values _ inside
    exact inside

theorem polledExactly_rows (json : JsonC) (unspecified : Int) (image : InputImage) :
    PolledExactly json unspecified image ↔ ∀ row ∈ inputRows,
      InInt (toFloat (row.imageValue image)) ∧
        toFloat (row.imageValue image) = row.imageValue image := by
  obtain ⟨jsonObj, answered, entries⟩ :=
    pdoJson_inputRows json (polledValue unspecified (.overlay image))
  have polled {row : PdoRow} (member : row ∈ inputRows)
      (inRange : InInt (toFloat (row.imageValue image))) :
      (row.indexSub, row.imageValue image) ∈ json.entries jsonObj ↔
        toFloat (row.imageValue image) = row.imageValue image := by
    rw [entries row member, polledValue, getPdoInputValue_row image row member, if_pos inRange,
      eq_comm]
  rw [PolledExactly]
  simp only [answered, Option.some.injEq, exists_eq_left']
  constructor
  · intro exact row member
    obtain ⟨inRange, inside⟩ := exact row member
    rw [getPdoInputValue_row image row member] at inRange
    exact ⟨inRange, (polled member inRange).mp inside⟩
  · intro exact row member
    obtain ⟨inRange, same⟩ := exact row member
    rw [getPdoInputValue_row image row member]
    exact ⟨inRange, (polled member inRange).mpr same⟩

/-- The conversions change nothing about an `int` that fits the significand. -/
theorem toFloat_exact_iff {value : Int} (inRange : InInt value) :
    InInt (toFloat value) ∧ toFloat value = value ↔ Representable 24 value := by
  rw [toFloat, round_eq_self_iff]
  constructor
  · exact And.right
  · intro representable
    rw [(round_eq_self_iff 24 value).mpr representable]
    exact ⟨inRange, representable⟩

/-- The five values are exact exactly when the position and the velocity fit the significand of a
`float`. -/
theorem polled_exactly_iff (json : JsonC) (unspecified : Int) (image : InputImage) :
    PolledExactly json unspecified image ↔
      Representable 24 (FestoMotorInputs.overlay image).positionActualValue.toInt ∧
        Representable 24 (FestoMotorInputs.overlay image).velocityActualValue.toInt := by
  generalize fields : FestoMotorInputs.overlay image = inputs
  have values : inputRows.map (PdoRow.imageValue image) =
      [(inputs.statusWord.toNat : Int), inputs.modesOfOperationDispaly.toInt,
        inputs.positionActualValue.toInt, inputs.velocityActualValue.toInt,
        inputs.torqueActualValue.toInt] := by
    have entries := congrArg (List.map Prod.snd) (inputRows_imageValue image)
    rwa [List.map_map, fields] at entries
  have byRows : (∀ row ∈ inputRows, InInt (toFloat (row.imageValue image)) ∧
      toFloat (row.imageValue image) = row.imageValue image) ↔
      ∀ value ∈ inputRows.map (PdoRow.imageValue image),
        InInt (toFloat value) ∧ toFloat value = value := by
    rw [List.forall_mem_map]
  have statusWord := inputs.statusWord.toNat_lt
  have modesLow := inputs.modesOfOperationDispaly.le_toInt
  have modesHigh := inputs.modesOfOperationDispaly.toInt_lt
  have torqueLow := inputs.torqueActualValue.le_toInt
  have torqueHigh := inputs.torqueActualValue.toInt_lt
  rw [polledExactly_rows, byRows, values]
  simp only [List.forall_mem_cons, List.not_mem_nil, IsEmpty.forall_iff, implies_true, and_true]
  rw [toFloat_exact_iff ⟨by omega, by omega⟩, toFloat_exact_iff ⟨by omega, by omega⟩,
    toFloat_exact_iff ⟨inputs.positionActualValue.le_toInt, inputs.positionActualValue.toInt_lt⟩,
    toFloat_exact_iff ⟨inputs.velocityActualValue.le_toInt, inputs.velocityActualValue.toInt_lt⟩,
    toFloat_exact_iff ⟨by omega, by omega⟩]
  have short : Representable 24 (inputs.statusWord.toNat : Int) ∧
      Representable 24 inputs.modesOfOperationDispaly.toInt ∧
      Representable 24 inputs.torqueActualValue.toInt :=
    ⟨representable_of_lt (by omega), representable_of_lt (by omega),
      representable_of_lt (by omega)⟩
  constructor
  · rintro ⟨-, -, position, velocity, -⟩
    exact ⟨position, velocity⟩
  · rintro ⟨position, velocity⟩
    exact ⟨short.1, short.2.1, position, velocity, short.2.2⟩

/-- The position 2^24 + 1, and a velocity next to the end of the range. -/
def farImage : InputImage := ⟨#[0, 0, 0, 1, 0, 0, 1, 0xff, 0xff, 0xff, 0x7f, 0, 0], rfl⟩

/-- The position is reported as 2^24, and the velocity does not fit an `int` any more. -/
theorem farImage_changed :
    getPdoInputValueFestoMotor (.overlay farImage) (ascii "0x6064:0x00") = 2 ^ 24 ∧
      getPdoInputValueFestoMotor (.overlay farImage) (ascii "0x606C:0x00") = 2 ^ 31 ∧
      ∀ json unspecified, ¬ PolledExactly json unspecified farImage := by
  refine ⟨by decide, by decide, fun json unspecified exact => ?_⟩
  have changed : ¬ ∀ row ∈ inputRows,
      toFloat (row.imageValue farImage) = row.imageValue farImage := by decide
  exact changed fun row member => ((polledExactly_rows json unspecified farImage).mp exact row member).2

end WebserverEthercat
