import WebserverEthercat.Coe.Slave

/-!
# Losses

A link to the slave that loses requests and answers for good, in any order.
-/

set_option autoImplicit false

namespace WebserverEthercat.Coe

open Reads

/-- What becomes of an exchange. -/
inductive Fate where
  | delivered
  | requestLost
  | answerLost
deriving DecidableEq, Repr

namespace Slave

variable (slave : Slave)

/-- The exchange at a time has its fate. -/
def lossy (fates : Nat → Fate) (state : Nat × slave.State) (request : Frame) :
    Option (Option Frame × (Nat × slave.State)) :=
  let answered := slave.answer state.2 request
  match fates state.1 with
  | .delivered => some (some answered.1, (state.1 + 1, answered.2))
  | .requestLost => some (none, (state.1 + 1, state.2))
  | .answerLost => some (none, (state.1 + 1, answered.2))

end Slave

end WebserverEthercat.Coe
