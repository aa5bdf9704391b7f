import WebserverEthercat.Dump.ObjectDictionary

/-!
# Octet strings

`SDO2string` appends the text of each byte to `hstr`.  The elements of `usdo`
are signed, so that a byte from 0x80 on is widened to eight digits: its text is
not the byte, and 127 of them do not fit.
-/

set_option autoImplicit false

namespace WebserverEthercat

open CString

/-- What a read can put into `usdo[128]`: `l` is one less than its size. -/
structure SdoContent where
  bytes : List UInt8
  fits : bytes.length ≤ 127

/-- `usdo` and `l` after the `memset` and the read. -/
def SdoContent.read (content : SdoContent) : Usdo :=
  ⟨content.bytes ++ List.replicate (128 - content.bytes.length) 0, content.bytes.length⟩

theorem SdoContent.take_read (content : SdoContent) :
    content.read.usdo.take content.read.l = content.bytes := by
  simp [SdoContent.read]

/-! ## The loop -/

/-- `sprintf(es, "0x%2.2x ", usdo[i]); strcat(hstr, es);` -/
def appendOctet (strings : Block × Block) (byte : UInt8) : Option (Block × Block) := do
  let es ← sprintf strings.1 (octetText byte)
  let hstr ← strcat strings.2 es
  return (es, hstr)

/-- The `ECT_OCTET_STRING` branch of `SDO2string`, on `es` and `hstr`. -/
def octetString (value : Usdo) (es hstr : Block) : Option (Block × Block) := do
  let hstr ← store hstr 0 0
  (value.usdo.take value.l).foldlM appendOctet (es, hstr)

/-! ## The property -/

/-- `0x`, the two hexadecimal digits of the byte and a space -/
def octetDigits (byte : UInt8) : List UInt8 :=
  [48, 120, lowerHexByte (byte.toNat / 16), lowerHexByte (byte.toNat % 16), 32]

def hexByteValue (digit : UInt8) : UInt8 := if digit ≤ 57 then digit - 48 else digit - 87

def readOctets : List UInt8 → Option (List UInt8)
  | [] => some []
  | 48 :: 120 :: high :: low :: 32 :: rest =>
      (readOctets rest).map ((16 * hexByteValue high + hexByteValue low) :: ·)
  | _ => none

/-- Whatever the two arrays hold before. -/
def RenderedExactly (content : SdoContent) : Prop :=
  ∀ es hstr : Block, es.length = 32 → hstr.length = 1024 →
    ∃ strings text, octetString content.read es hstr = some strings ∧
      strings.2.length = 1024 ∧ Holds strings.2 text ∧
      text = content.bytes.flatMap octetDigits ∧ readOctets text = some content.bytes

/-! ## The text of a byte -/

theorem promoted (byte : UInt8) :
    (byte.toInt8.toInt % 2 ^ 32).toNat =
      if byte < 0x80 then byte.toNat else 2 ^ 32 - 256 + byte.toNat := by
  have small := byte.toNat_lt
  have signed : byte.toInt8.toInt = byte.toBitVec.toInt := rfl
  have same : byte.toBitVec.toNat = byte.toNat := rfl
  have bound : byte < 0x80 ↔ byte.toNat < 128 := UInt8.lt_iff_toNat_lt
  rw [signed, BitVec.toInt_eq_toNat_cond, same]
  split
  case isTrue low =>
    rw [if_pos (bound.mpr (by omega))]
    omega
  case isFalse high =>
    have wrapped : ((byte.toNat : Int) - (2 ^ 8 : Nat)) % 2 ^ 32 =
        (2 ^ 32 - 256 + byte.toNat : Nat) := by
      push_cast
      omega
    have notLow : ¬ byte < 0x80 := by
      rw [bound]
      omega
    rw [if_neg notLow, wrapped, Int.toNat_natCast]

theorem octetText_low {byte : UInt8} (low : byte < 0x80) : octetText byte = octetDigits byte := by
  rw [octetText, promoted, if_pos low, lowerHex, hexDigits_two byte.toNat_lt]
  rfl

theorem length_octetText_high {byte : UInt8} (high : ¬ byte < 0x80) :
    (octetText byte).length = 11 := by
  have small := byte.toNat_lt
  have atMost := (Nat.digits_length_le_iff (by omega : 1 < 16) (2 ^ 32 - 256 + byte.toNat)).mpr
    (show _ < 16 ^ 8 by omega)
  have atLeast := (Nat.lt_digits_length_iff (by omega : 1 < 16) (2 ^ 32 - 256 + byte.toNat)).mpr
    (show 16 ^ 7 ≤ _ by omega)
  have digits : (Nat.digits 16 (2 ^ 32 - 256 + byte.toNat)).length = 8 := by omega
  rw [octetText, promoted, if_neg high, List.length_append, List.length_append,
    length_lowerHex_large (by omega), digits]
  rfl

theorem length_octetText (byte : UInt8) :
    (octetText byte).length = if byte < 0x80 then 5 else 11 := by
  split
  case isTrue low =>
    rw [octetText_low low]
    rfl
  case isFalse high => exact length_octetText_high high

theorem octetText_noNul (byte : UInt8) : 0 ∉ octetText byte := by
  simp only [octetText, List.mem_append, not_or]
  refine ⟨⟨by decide, fun member => ?_⟩, by decide⟩
  rcases mem_lowerHex member with digit | letter
  · exact absurd digit.1 (by decide)
  · exact absurd letter.1 (by decide)

/-! ## The loop in the arrays -/

theorem appendOctet_holds {es hstr : Block} {front : List UInt8} (byte : UInt8)
    (size : es.length = 32) (holds : Holds hstr front) :
    ((front ++ octetText byte).length < hstr.length →
        ∃ after, appendOctet (es, hstr) byte = some after ∧ after.1.length = 32 ∧
          Holds after.2 (front ++ octetText byte) ∧ after.2.length = hstr.length) ∧
      (hstr.length ≤ (front ++ octetText byte).length → appendOctet (es, hstr) byte = none) := by
  have length := length_octetText byte
  obtain ⟨text, put, textHolds, textLength⟩ := sprintf_holds (octetText_noNul byte)
    (show (octetText byte).length < es.length by split at length <;> omega)
  constructor
  · intro room
    obtain ⟨joined, copied, joinedHolds, joinedLength⟩ := strcat_holds holds textHolds room
    refine ⟨(text, joined), ?_, textLength.trans size, joinedHolds, joinedLength⟩
    simp [appendOctet, put, copied]
  · intro full
    simp [appendOctet, put, strcat_full holds textHolds full]

/-- The induction is on the bytes that are left; `front` is the text of those before. -/
theorem appendOctets_holds (bytes : List UInt8) :
    ∀ (es hstr : Block) (front : List UInt8), es.length = 32 → Holds hstr front →
      ((front ++ bytes.flatMap octetText).length < hstr.length →
          ∃ after, bytes.foldlM appendOctet (es, hstr) = some after ∧
            Holds after.2 (front ++ bytes.flatMap octetText) ∧ after.2.length = hstr.length) ∧
        (hstr.length ≤ (front ++ bytes.flatMap octetText).length →
          bytes.foldlM appendOctet (es, hstr) = none) := by
  induction bytes with
  | nil =>
      intro es hstr front size holds
      rw [List.flatMap_nil, List.append_nil]
      refine ⟨fun room => ⟨_, rfl, holds, rfl⟩, fun full => ?_⟩
      exact absurd holds.length_lt (Nat.not_lt.mpr full)
  | cons byte bytes ih =>
      intro es hstr front size holds
      obtain ⟨step, stuck⟩ := appendOctet_holds byte size holds
      rw [List.foldlM_cons, List.flatMap_cons, ← List.append_assoc]
      by_cases room : (front ++ octetText byte).length < hstr.length
      · obtain ⟨after, taken, afterSize, afterHolds, afterLength⟩ := step room
        rw [taken, ← afterLength]
        exact ih after.1 after.2 (front ++ octetText byte) afterSize afterHolds
      · rw [stuck (Nat.not_lt.mp room)]
        refine ⟨fun fits => ?_, fun _ => rfl⟩
        rw [List.length_append] at fits
        omega

theorem octetString_holds (content : SdoContent) {es hstr : Block} (esSize : es.length = 32)
    (hstrSize : hstr.length = 1024) :
    ((content.bytes.flatMap octetText).length < 1024 →
        ∃ after, octetString content.read es hstr = some after ∧
          Holds after.2 (content.bytes.flatMap octetText) ∧ after.2.length = 1024) ∧
      (1024 ≤ (content.bytes.flatMap octetText).length →
        octetString content.read es hstr = none) := by
  obtain ⟨cell, rest, rfl⟩ : ∃ cell rest, hstr = cell :: rest := by
    cases hstr with
    | nil => simp at hstrSize
    | cons cell rest => exact ⟨cell, rest, rfl⟩
  have emptied : octetString content.read es (cell :: rest) =
      content.bytes.foldlM appendOctet (es, some 0 :: rest) := by
    simp [octetString, store, content.take_read]
  rw [emptied, ← hstrSize]
  exact appendOctets_holds content.bytes es (some 0 :: rest) [] esSize
    ((holds_nil_iff _).mpr ⟨rest, rfl⟩)

theorem length_octetTexts (bytes : List UInt8) :
    (bytes.flatMap octetText).length =
      5 * bytes.countP (· < 0x80) + 11 * bytes.countP (0x80 ≤ ·) := by
  induction bytes with
  | nil => rfl
  | cons byte bytes ih =>
      rw [List.flatMap_cons, List.length_append, ih, length_octetText]
      by_cases low : byte < 0x80
      · simp [low, UInt8.not_le.mpr low]
        omega
      · simp [low, UInt8.not_lt.mp low]
        omega

theorem countP_low_add_high (bytes : List UInt8) :
    bytes.countP (· < 0x80) + bytes.countP (0x80 ≤ ·) = bytes.length := by
  rw [List.length_eq_countP_add_countP (· < 0x80)]
  simp

/-- `hstr` overflows when more of the bytes are high than there is room for. -/
theorem octetString_fits_iff (content : SdoContent) {es hstr : Block} (esSize : es.length = 32)
    (hstrSize : hstr.length = 1024) :
    (octetString content.read es hstr).isSome ↔
      5 * content.bytes.countP (· < 0x80) + 11 * content.bytes.countP (0x80 ≤ ·) < 1024 := by
  obtain ⟨fits, overflows⟩ := octetString_holds content esSize hstrSize
  rw [← length_octetTexts]
  constructor
  · intro ends
    by_contra full
    rw [overflows (Nat.not_lt.mp full)] at ends
    cases ends
  · intro room
    obtain ⟨after, ends, -⟩ := fits room
    rw [ends]
    rfl

/-! ## Reading back -/

theorem hexByteValue_digit {digit : Nat} (small : digit < 16) :
    hexByteValue (lowerHexByte digit) = UInt8.ofNat digit := by
  revert digit
  decide

theorem readOctets_octetDigits (bytes : List UInt8) :
    readOctets (bytes.flatMap octetDigits) = some bytes := by
  induction bytes with
  | nil => rfl
  | cons byte bytes ih =>
      have small := byte.toNat_lt
      have value : 16 * UInt8.ofNat (byte.toNat / 16) + UInt8.ofNat (byte.toNat % 16) = byte := by
        apply UInt8.toNat_inj.mp
        rw [UInt8.toNat_add, UInt8.toNat_mul, UInt8.toNat_ofNat', UInt8.toNat_ofNat']
        have sixteen : (16 : UInt8).toNat = 16 := rfl
        rw [sixteen]
        omega
      rw [List.flatMap_cons, octetDigits]
      simp only [List.cons_append, List.nil_append, readOctets, ih, Option.map_some,
        hexByteValue_digit (show byte.toNat / 16 < 16 by omega),
        hexByteValue_digit (show byte.toNat % 16 < 16 by omega), value]

/-! ## The contents that are rendered byte for byte -/

theorem length_octetDigits (bytes : List UInt8) :
    (bytes.flatMap octetDigits).length = 5 * bytes.length := by
  induction bytes with
  | nil => rfl
  | cons byte bytes ih =>
      rw [List.flatMap_cons, List.length_append, ih, List.length_cons, octetDigits]
      simp only [List.length_cons, List.length_nil]
      omega

/-- Texts of low bytes are five long, and a high byte makes the whole text longer. -/
theorem octetTexts_eq_iff (bytes : List UInt8) :
    bytes.flatMap octetText = bytes.flatMap octetDigits ↔ ∀ byte ∈ bytes, byte < 0x80 := by
  constructor
  · intro same
    have lengths := congrArg List.length same
    have split := countP_low_add_high bytes
    rw [length_octetTexts, length_octetDigits] at lengths
    have none : bytes.countP (0x80 ≤ ·) = 0 := by omega
    simpa using List.countP_eq_zero.mp none
  · intro low
    exact List.flatMap_congr fun byte member => octetText_low (low byte member)

theorem rendered_iff_texts (content : SdoContent) :
    RenderedExactly content ↔
      content.bytes.flatMap octetText = content.bytes.flatMap octetDigits := by
  constructor
  · intro rendered
    obtain ⟨strings, text, ends, -, holds, exact, -⟩ :=
      rendered (uninitialised 32) (uninitialised 1024) (by simp) (by simp)
    obtain ⟨fits, overflows⟩ := octetString_holds content
      (length_uninitialised 32) (length_uninitialised 1024)
    by_cases room : (content.bytes.flatMap octetText).length < 1024
    · obtain ⟨after, same, written, -⟩ := fits room
      obtain rfl := Option.some.inj (same.symm.trans ends)
      have text_eq := (cstring_of_holds _ _ written).symm.trans (cstring_of_holds _ _ holds)
      exact (Option.some.inj text_eq).trans exact
    · rw [overflows (Nat.not_lt.mp room)] at ends
      cases ends
  · intro same es hstr esSize hstrSize
    have room : (content.bytes.flatMap octetText).length < 1024 := by
      have fits := content.fits
      rw [same, length_octetDigits]
      omega
    obtain ⟨after, ends, holds, size⟩ := (octetString_holds content esSize hstrSize).1 room
    exact ⟨after, _, ends, size, holds, same, same ▸ readOctets_octetDigits content.bytes⟩

/-- Exactly the contents of low bytes are rendered byte for byte; they always fit. -/
theorem rendered_exactly_iff (content : SdoContent) :
    RenderedExactly content ↔ ∀ byte ∈ content.bytes, byte < 0x80 :=
  (rendered_iff_texts content).trans (octetTexts_eq_iff content.bytes)

/-- The first two bytes of a diagnosis message. -/
def diagnosis : SdoContent := ⟨[0x88, 0x81], by decide⟩

/-- A buffer of high bytes. -/
def highContent : SdoContent := ⟨List.replicate 127 0x80, by simp⟩

/-- High bytes are widened, and a buffer of them overflows `hstr`. -/
theorem high_octets_widened :
    diagnosis.bytes.flatMap octetText = ascii "0xffffff88 0xffffff81 " ∧
      ¬ RenderedExactly diagnosis ∧
      octetString highContent.read (uninitialised 32) (uninitialised 1024) = none := by
  have widened : diagnosis.bytes.flatMap octetText = ascii "0xffffff88 0xffffff81 " := by
    decide +kernel
  refine ⟨widened, ?_, ?_⟩
  · rw [rendered_iff_texts, widened]
    decide
  · have room := octetString_fits_iff highContent (length_uninitialised 32)
      (length_uninitialised 1024)
    rw [← Option.not_isSome_iff_eq_none, room, highContent]
    simp

end WebserverEthercat
