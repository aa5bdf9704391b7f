import Mathlib.Data.Int.Basic

/-!
# The EtherCAT master calls

The AL states of `ethercattype.h` and the calls to the SOEM library that the
program issues.  A call that opens the link carries its outcome.
-/

set_option autoImplicit false

namespace WebserverEthercat

def ecNoframe : Int := -1

def ecStateNone : UInt16 := 0x00
def ecStateInit : UInt16 := 0x01
def ecStatePreOp : UInt16 := 0x02
def ecStateBoot : UInt16 := 0x03
def ecStateSafeOp : UInt16 := 0x04
def ecStateOperational : UInt16 := 0x08
def ecStateAck : UInt16 := 0x10
def ecStateError : UInt16 := 0x10

inductive BusCall where
  | init (success : Bool)
  | close
  | configInit
  | configMap
  | config
  | configdc
  | writestate (slave : Nat) (state : UInt16)
  | readstate
  | statecheck (slave : Nat) (state : UInt16)
  | brd
  | sendProcessdata
  | receiveProcessdata
  | sdoWrite
  /-- a CoE or SII read of the slave dump -/
  | slaveRead
  | reconfigSlave (slave : Nat)
  | recoverSlave (slave : Nat)
deriving DecidableEq, Repr

end WebserverEthercat
