import Mathlib.Data.UInt
import WebserverEthercat.Dump.SiiDecoded

/-!
# SDO frames

A mailbox is a buffer of bytes: the mailbox header, the CoE header and the
command, behind which an index, a subindex and data stand, or a segment.
-/

set_option autoImplicit false

namespace WebserverEthercat.Coe

open Sii (wordBytes word_of_bytes)

/-- What is written into a mailbox, which holds zeros behind it. -/
abbrev Frame := List UInt8

/-- `EC_MAXMBX`; an `ec_mbxbuft` has a byte more. -/
def ecMaxMbx : Nat := 1486

namespace Frame

def byte (frame : Frame) (n : Nat) : UInt8 := frame.getD n 0

def word (frame : Frame) (n : Nat) : UInt16 :=
  (frame.byte n).toUInt16 + ((frame.byte (n + 1)).toUInt16 <<< 8)

def length (frame : Frame) : UInt16 := frame.word 0
def mbxtype (frame : Frame) : UInt8 := frame.byte 5
def canOpen (frame : Frame) : UInt16 := frame.word 6
def command (frame : Frame) : UInt8 := frame.byte 8
def index (frame : Frame) : UInt16 := frame.word 9
def subIndex (frame : Frame) : UInt8 := frame.byte 11

def ldata0 (frame : Frame) : UInt32 :=
  (frame.word 12).toUInt32 + ((frame.word 14).toUInt32 <<< 16)

def bytes (frame : Frame) (n count : Nat) : List UInt8 :=
  (List.range count).map fun k => frame.byte (n + k)

/-- `memcpy` out of the mailbox buffer, which fails behind its end. -/
def copy (frame : Frame) (n count : Nat) : Option (List UInt8) :=
  if n + count ≤ ecMaxMbx + 1 then some (frame.bytes n count) else none

end Frame

def ectMbxtCoe : UInt8 := 3
def ectCoesSdoReq : UInt16 := 2
def ectCoesSdoRes : UInt16 := 3

def ectSdoDownInit : UInt8 := 0x21
def ectSdoDownExp : UInt8 := 0x23
def ectSdoDownInitCa : UInt8 := 0x31
def ectSdoUpReq : UInt8 := 0x40
def ectSdoUpReqCa : UInt8 := 0x50
def ectSdoSegUpReq : UInt8 := 0x60
def ectSdoAbort : UInt8 := 0x80

/-- `ec_nextmbxcnt` -/
def nextMbxCnt (cnt : UInt8) : UInt8 := if cnt + 1 > 7 then 1 else cnt + 1

/-- The address and the priority, which are 0, and the type with the counter. -/
def mbxAddress (cnt : UInt8) : List UInt8 := [0, 0, 0, ectMbxtCoe + (cnt <<< 4)]

/-- A frame with everything behind the command in `rest`. -/
def sdoFrame (length : UInt16) (cnt : UInt8) (service : UInt16) (command : UInt8)
    (rest : List UInt8) : Frame :=
  wordBytes length ++ (mbxAddress cnt ++ (wordBytes (service <<< 12) ++ (command :: rest)))

def dwordBytes (value : UInt32) : List UInt8 :=
  wordBytes value.toUInt16 ++ wordBytes (value >>> 16).toUInt16

/-- The index and the subindex in front of the data. -/
def sdoData (index : UInt16) (subIndex : UInt8) (data : List UInt8) : List UInt8 :=
  wordBytes index ++ (subIndex :: data)

/-! ## What stands in a frame -/

section Fields

variable (length : UInt16) (cnt : UInt8) (service : UInt16) (command : UInt8) (rest : List UInt8)

@[simp] theorem sdoFrame_length : (sdoFrame length cnt service command rest).length = length :=
  word_of_bytes length

@[simp] theorem sdoFrame_command : (sdoFrame length cnt service command rest).command = command :=
  rfl

theorem sdoFrame_canOpen :
    (sdoFrame length cnt service command rest).canOpen = service <<< 12 :=
  word_of_bytes (service <<< 12)

theorem sdoFrame_mbxtype :
    (sdoFrame length cnt service command rest).mbxtype = ectMbxtCoe + (cnt <<< 4) := rfl

@[simp] theorem sdoFrame_index (index : UInt16) (subIndex : UInt8) (data : List UInt8) :
    (sdoFrame length cnt service command (sdoData index subIndex data)).index = index :=
  word_of_bytes index

@[simp] theorem sdoFrame_ldata0 (index : UInt16) (subIndex : UInt8) (value : UInt32)
    (data : List UInt8) :
    (sdoFrame length cnt service command
      (sdoData index subIndex (dwordBytes value ++ data))).ldata0 = value := by
  have low : (sdoFrame length cnt service command
      (sdoData index subIndex (dwordBytes value ++ data))).word 12 = value.toUInt16 :=
    word_of_bytes value.toUInt16
  have high : (sdoFrame length cnt service command
      (sdoData index subIndex (dwordBytes value ++ data))).word 14 = (value >>> 16).toUInt16 :=
    word_of_bytes (value >>> 16).toUInt16
  have bound := value.toNat_lt
  rw [Frame.ldata0, low, high, ← UInt32.toNat_inj]
  simp only [UInt32.toNat_add, UInt32.toNat_shiftLeft, UInt16.toNat_toUInt32,
    UInt32.toNat_toUInt16, UInt32.toNat_shiftRight, UInt32.reduceToNat]
  simp only [Nat.reduceMod, Nat.shiftRight_eq_div_pow, Nat.shiftLeft_eq]
  omega

theorem bytes_segment {count : Nat} (few : count ≤ rest.length) :
    (sdoFrame length cnt service command rest).bytes 9 count = rest.take count := by
  apply List.ext_getElem
  · simp [Frame.bytes, few]
  · intro k left right
    have small : k < rest.length := by simp at right; omega
    have there : (sdoFrame length cnt service command rest).byte (9 + k) = rest.getD k 0 := by
      rw [Nat.add_comm]
      rfl
    simp [Frame.bytes, there, List.getD_eq_getElem?_getD, small]

theorem bytes_data (index : UInt16) (subIndex : UInt8) (data : List UInt8) (skipped count : Nat)
    (few : skipped + count ≤ data.length) :
    (sdoFrame length cnt service command (sdoData index subIndex data)).bytes
      (12 + skipped) count = (data.drop skipped).take count := by
  apply List.ext_getElem
  · simp [Frame.bytes]
    omega
  · intro k left right
    have small : skipped + k < data.length := by simp at right; omega
    have there : (sdoFrame length cnt service command (sdoData index subIndex data)).byte
        (12 + skipped + k) = data.getD (skipped + k) 0 := by
      rw [Nat.add_assoc, Nat.add_comm 12]
      rfl
    simp [Frame.bytes, there, List.getD_eq_getElem?_getD, small]

end Fields

end WebserverEthercat.Coe
