import WebserverEthercat.Coe.DownloadTransfer
import WebserverEthercat.Coe.Server
import WebserverEthercat.Dump.Sdo

/-!
# Accesses to objects

To whoever calls `ec_SDOread` and `ec_SDOwrite` a slave that keeps to the
protocol is a dictionary.
-/

set_option autoImplicit false

namespace WebserverEthercat.Coe

open Reads

/-- The arguments for a single object of a slave whose mailboxes are in order. -/
structure Target where
  args : SdoArgs
  single : args.ca = false
  mailbox : args.Mailbox

/-- The data of a write, as many bytes as an `int` can count. -/
structure Payload where
  data : List UInt8
  small : data.length < 2 ^ 31

inductive Access where
  | read (target : Target)
  | write (target : Target) (payload : Payload)

/-- What the caller gets; `none` stands for `wkc <= 0`. -/
inductive Seen where
  | read (data : Option (List UInt8))
  | write (stored : Bool)
deriving DecidableEq, Repr

/-! ## The dictionary -/

namespace Objects

/-- An object is read whole or not at all. -/
def readable (objects : Objects) (args : SdoArgs) : Option (List UInt8) :=
  (objects args.index args.subindex).filter fun bytes => bytes.length ≤ args.size

/-- `takes` says which objects may be written, in which sizes. -/
def access (takes : UInt16 → UInt8 → Nat → Bool) (objects : Objects) :
    Access → Option (Seen × Objects)
  | .read target => some (.read (objects.readable target.args), objects)
  | .write target payload =>
      let content := announcedData payload.data
      if takes target.args.index target.args.subindex content.length then
        some (.write true, put objects target.args.index target.args.subindex content)
      else some (.write false, objects)

/-- What the dump reads is what the dictionary has. -/
theorem ecSdoRead_eq (objects : Objects) (args : SdoArgs)
    (objectEntry : UInt16 → UInt8 → Option Description) :
    (CoeSlave.mk objects objectEntry).ecSdoRead args.index args.subindex args.size =
      (objects.readable args).map littleEndian := by
  dsimp only [CoeSlave.ecSdoRead, readable]
  cases objects args.index args.subindex with
  | none => rfl
  | some bytes =>
      by_cases fits : bytes.length ≤ args.size <;> simp [fits, Option.filter]

end Objects

/-! ## The protocol -/

/-- An access over the protocol; the state has the slave's `mbx_cnt` in `slavelist`. -/
def Slave.access (slave : Slave) (turns : Nat) (state : UInt8 × slave.State) :
    Access → Option (Seen × (UInt8 × slave.State))
  | .read target =>
      match (sdoRead turns target.args state.1).run.serve slave.serve state.2 with
      | some (some (.returned result), after) =>
          some (.read (if result.wkc then some result.p else none), (result.mbxCnt, after))
      | _ => none
  | .write target payload =>
      match (sdoWrite target.args payload.data state.1).run.serve slave.serve state.2 with
      | some (some (.returned result), after) => some (.write result.wkc, (result.mbxCnt, after))
      | _ => none

section Accesses

variable {slave : Slave}

end Accesses

/-! ### A mapping -/

end WebserverEthercat.Coe
