import WebserverEthercat.Dump.Row

/-!
# CoE reads

A slave answers an `ec_SDOread` with bytes or not at all.  The value read is
what the bytes leave in a variable that was set to 0 before, in little-endian
order; content that is longer than the variable makes the read fail.
-/

set_option autoImplicit false

namespace WebserverEthercat

def ectSdoSmCommType : UInt16 := 0x1c00
def ectSdoPdoAssign : UInt16 := 0x1c10

structure CoeSlave where
  sdo : UInt16 → UInt8 → Option (List UInt8)
  /-- `ec_readOEsingle`: the description of an entry in the object dictionary -/
  objectEntry : UInt16 → UInt8 → Option Description

def littleEndian : List UInt8 → Nat
  | [] => 0
  | byte :: rest => byte.toNat + 256 * littleEndian rest

theorem littleEndian_lt (bytes : List UInt8) : littleEndian bytes < 256 ^ bytes.length := by
  induction bytes with
  | nil => exact Nat.one_pos
  | cons byte bytes ih =>
      have small := byte.toNat_lt
      rw [littleEndian, List.length_cons, Nat.pow_succ]
      omega

theorem littleEndian_append_zeros (bytes : List UInt8) (count : Nat) :
    littleEndian (bytes ++ List.replicate count 0) = littleEndian bytes := by
  induction bytes with
  | nil =>
      induction count with
      | zero => rfl
      | succ count ih => simpa [List.replicate_succ, littleEndian] using ih
  | cons byte bytes ih => rw [List.cons_append, littleEndian, ih, littleEndian]

namespace CoeSlave

/-- `none` stands for `wkc <= 0`. -/
def ecSdoRead (slave : CoeSlave) (index : UInt16) (subidx : UInt8) (size : Nat) : Option Nat :=
  match slave.sdo index subidx with
  | some bytes => if bytes.length ≤ size then some (littleEndian bytes) else none
  | none => none

def readU8 (slave : CoeSlave) (index : UInt16) (subidx : UInt8) : Option UInt8 :=
  (slave.ecSdoRead index subidx 1).map UInt8.ofNat

def readU16 (slave : CoeSlave) (index : UInt16) (subidx : UInt8) : Option UInt16 :=
  (slave.ecSdoRead index subidx 2).map UInt16.ofNat

def readU32 (slave : CoeSlave) (index : UInt16) (subidx : UInt8) : Option UInt32 :=
  (slave.ecSdoRead index subidx 4).map UInt32.ofNat

end CoeSlave

end WebserverEthercat
