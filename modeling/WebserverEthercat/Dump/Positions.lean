import WebserverEthercat.Dump.SameMapping

/-!
# The printed positions and the exchanged ones

The master exchanges the data of each configured sync manager in whole bytes,
one after the other, behind the byte that `outputs` or `inputs` points to; a
direction with fewer than 8 bits starts at its start bit.  The dump counts
bits from that byte on.
-/

set_option autoImplicit false

namespace WebserverEthercat

/-- `SMlength` -/
def ConfiguredSM.smLength (sm : ConfiguredSM) : Nat := (sm.tsize + 7) / 8

structure LogicalAddress where
  logAddr : Nat
  bitPos : Nat
deriving DecidableEq, Repr

def LogicalAddress.aligned (address : LogicalAddress) : LogicalAddress :=
  if address.bitPos ≠ 0 then ⟨address.logAddr + 1, 0⟩ else address

/-- `BitPos` runs over into the next byte. -/
def LogicalAddress.carried (address : LogicalAddress) : LogicalAddress :=
  if address.bitPos > 7 then ⟨address.logAddr + 1, address.bitPos - 8⟩ else address

/-- Where the data of a slave starts, and the address behind it.  Slaves with fewer than
8 bits share bytes. -/
def createMapping (bits : Nat) (address : LogicalAddress) : LogicalAddress × LogicalAddress :=
  if bits < 8 then
    let last := LogicalAddress.carried ⟨address.logAddr, address.bitPos + (bits - 1)⟩
    (address, LogicalAddress.carried ⟨last.logAddr, last.bitPos + 1⟩)
  else
    let start := address.aligned
    (start, ⟨start.logAddr + (bits + 7) / 8, 0⟩)

end WebserverEthercat
