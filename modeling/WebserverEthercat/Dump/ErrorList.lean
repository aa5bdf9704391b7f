import WebserverEthercat.Lib.Loops
import WebserverEthercat.Lib.RingBuffer

/-!
# The error list of the master

`ecx_pusherror` stores an error and sets `EcatError`; `ecx_poperror` takes the
oldest error and clears the flag only when it finds no error.  So the flag stays
set for one call after the last error is gone.
-/

set_option autoImplicit false

namespace WebserverEthercat

def ecMaxElist : Nat := 64

structure ErrorList (Error : Type) where
  elist : RingBuffer Error ecMaxElist
  ecatError : Bool
  sticky : elist.head ≠ elist.tail → ecatError = true

namespace ErrorList

variable {Error : Type}

def pusherror (errors : ErrorList Error) (error : Error) : ErrorList Error where
  elist := errors.elist.push error
  ecatError := true
  sticky := fun _ => rfl

/-- The errors that one call of the master pushes. -/
def pusherrors (errors : ErrorList Error) (raised : List Error) : ErrorList Error :=
  raised.foldl pusherror errors

def poperror (errors : ErrorList Error) : Option Error × ErrorList Error :=
  if notEmpty : errors.elist.head ≠ errors.elist.tail then
    (errors.elist.pop.1, ⟨errors.elist.pop.2, errors.ecatError, fun _ => errors.sticky notEmpty⟩)
  else
    (none, ⟨errors.elist.pop.2, false, by
      intro some
      simp [RingBuffer.pop, notEmpty] at some⟩)

/-- The text is that of the error, or empty. -/
def elist2string (errors : ErrorList Error) : Option Error × ErrorList Error := errors.poperror

def pending (errors : ErrorList Error) : List Error := errors.elist.contents

theorem pending_length (errors : ErrorList Error) : errors.pending.length ≤ ecMaxElist := by
  rw [pending, RingBuffer.length_contents]
  exact errors.elist.length_le

theorem ecatError_of_pending {errors : ErrorList Error} (some : errors.pending ≠ []) :
    errors.ecatError = true :=
  errors.sticky fun meets => some (errors.elist.contents_eq_nil_iff.mpr meets)

theorem pending_of_clear {errors : ErrorList Error} (clear : errors.ecatError = false) :
    errors.pending = [] := by
  by_contra some
  rw [ecatError_of_pending some] at clear
  cases clear

@[simp] theorem pusherror_ecatError (errors : ErrorList Error) (error : Error) :
    (errors.pusherror error).ecatError = true :=
  rfl

theorem pusherror_pending {errors : ErrorList Error} (error : Error)
    (few : errors.pending.length < ecMaxElist) :
    (errors.pusherror error).pending = errors.pending ++ [error] := by
  rw [pending, RingBuffer.length_contents] at few
  exact errors.elist.push_of_room error (by omega)

theorem poperror_empty {errors : ErrorList Error} (empty : errors.pending = []) :
    errors.poperror.1 = none ∧ errors.poperror.2.pending = [] ∧
      errors.poperror.2.ecatError = false := by
  have meets := errors.elist.contents_eq_nil_iff.mp empty
  have popped := errors.elist.pop_eq
  rw [show errors.elist.contents = [] from empty] at popped
  simp only [poperror, meets, ne_eq, not_true_eq_false, dite_false, pending]
  exact ⟨trivial, popped.2, trivial⟩

theorem poperror_cons {errors : ErrorList Error} {error : Error} {rest : List Error}
    (oldest : errors.pending = error :: rest) :
    errors.poperror.1 = some error ∧ errors.poperror.2.pending = rest ∧
      errors.poperror.2.ecatError = true := by
  have some : errors.pending ≠ [] := by simp [oldest]
  have apart : errors.elist.head ≠ errors.elist.tail := fun meets =>
    some (errors.elist.contents_eq_nil_iff.mpr meets)
  have popped := errors.elist.pop_eq
  rw [show errors.elist.contents = error :: rest from oldest] at popped
  rw [poperror, dif_pos apart]
  exact ⟨popped.1, popped.2, errors.sticky apart⟩

/-- Another turn of `while (EcatError)` means that the last one popped an error. -/
theorem poperror_falls {errors : ErrorList Error} (again : errors.poperror.2.ecatError = true) :
    errors.poperror.2.pending.length < errors.pending.length := by
  cases oldest : errors.pending with
  | nil =>
      rw [(poperror_empty oldest).2.2] at again
      cases again
  | cons error rest =>
      rw [(poperror_cons oldest).2.1]
      simp

end ErrorList

end WebserverEthercat
