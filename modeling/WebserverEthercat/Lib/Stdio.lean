import Mathlib.Data.Nat.Find
import Mathlib.Logic.Function.Basic

/-!
# Descriptors and the buffer of a stream

A descriptor refers to a file or is closed; `open` and `dup` take the lowest
closed one.  A stream collects what is printed in a buffer and writes it to
whatever its descriptor refers to at that moment, so redirecting the descriptor
also redirects what is still in the buffer.
-/

set_option autoImplicit false

namespace Stdio

variable {File : Type}

structure Descriptors (File : Type) where
  target : Nat → Option File
  bound : Nat
  closedFrom : ∀ fd, bound ≤ fd → target fd = none

namespace Descriptors

theorem exists_closed (descriptors : Descriptors File) :
    ∃ fd, (descriptors.target fd).isNone = true :=
  ⟨descriptors.bound, by rw [descriptors.closedFrom _ (Nat.le_refl _)]; rfl⟩

def lowest (descriptors : Descriptors File) : Nat := Nat.find descriptors.exists_closed

theorem target_lowest (descriptors : Descriptors File) :
    descriptors.target descriptors.lowest = none :=
  Option.isNone_iff_eq_none.mp (Nat.find_spec descriptors.exists_closed)

theorem ne_lowest {descriptors : Descriptors File} {fd : Nat} {file : File}
    (refers : descriptors.target fd = some file) : fd ≠ descriptors.lowest := by
  intro same
  rw [same, descriptors.target_lowest] at refers
  cases refers

def redirect (descriptors : Descriptors File) (fd : Nat) (file : Option File) :
    Descriptors File where
  target := Function.update descriptors.target fd file
  bound := max descriptors.bound (fd + 1)
  closedFrom other above := by
    rw [Function.update_of_ne (by omega)]
    exact descriptors.closedFrom other (by omega)

@[simp] theorem redirect_same (descriptors : Descriptors File) (fd : Nat) (file : Option File) :
    (descriptors.redirect fd file).target fd = file :=
  Function.update_self ..

theorem redirect_other (descriptors : Descriptors File) {fd other : Nat} (file : Option File)
    (different : other ≠ fd) :
    (descriptors.redirect fd file).target other = descriptors.target other :=
  Function.update_of_ne different ..

end Descriptors

inductive Buffering where
  | full
  | line
deriving DecidableEq, Repr

structure Process (File : Type) where
  descriptors : Descriptors File
  contents : File → List UInt8
  /-- the descriptor of the stream -/
  fileno : Nat
  buffering : Buffering
  capacity : Nat
  pending : List UInt8

namespace Process

def target (process : Process File) (fd : Nat) : Option File := process.descriptors.target fd

def close (process : Process File) (fd : Nat) : Process File :=
  { process with descriptors := process.descriptors.redirect fd none }

/-- `granted` says whether the call succeeds when its arguments are valid. -/
def dup (granted : Bool) (fd : Nat) (process : Process File) : Option (Nat × Process File) :=
  if granted then
    (process.target fd).map fun file =>
      (process.descriptors.lowest, { process with
        descriptors := process.descriptors.redirect process.descriptors.lowest (some file) })
  else none

def dup2 (granted : Bool) (old new : Nat) (process : Process File) : Option (Process File) :=
  if granted then
    (process.target old).map fun file =>
      { process with descriptors := process.descriptors.redirect new (some file) }
  else none

@[simp] theorem close_same (process : Process File) (fd : Nat) :
    (process.close fd).target fd = none :=
  process.descriptors.redirect_same ..

theorem close_other (process : Process File) {fd other : Nat} (different : other ≠ fd) :
    (process.close fd).target other = process.target other :=
  process.descriptors.redirect_other _ different

theorem dup_granted {process : Process File} {fd : Nat} {file : File}
    (refers : process.target fd = some file) :
    process.dup true fd = some (process.descriptors.lowest,
      { process with
        descriptors := process.descriptors.redirect process.descriptors.lowest (some file) }) := by
  rw [dup, if_pos rfl, refers, Option.map_some]

theorem dup2_granted {process : Process File} {old : Nat} {file : File}
    (refers : process.target old = some file) (new : Nat) :
    process.dup2 true old new =
      some { process with descriptors := process.descriptors.redirect new (some file) } := by
  rw [dup2, if_pos rfl, refers, Option.map_some]

/-! ## What reaches the file -/

/-- Only the buffer and the contents of `file` change, and together they gain `text`. -/
structure Prints (file : File) (text : List UInt8) (before after : Process File) : Prop where
  descriptors : after.descriptors = before.descriptors
  fileno : after.fileno = before.fileno
  buffering : after.buffering = before.buffering
  capacity : after.capacity = before.capacity
  gained : after.contents file ++ after.pending =
    before.contents file ++ before.pending ++ text
  others : ∀ other, other ≠ file → after.contents other = before.contents other

theorem Prints.refl (file : File) (process : Process File) : Prints file [] process process :=
  ⟨rfl, rfl, rfl, rfl, by simp, fun _ _ => rfl⟩

theorem Prints.trans {file : File} {first second : List UInt8}
    {before middle after : Process File} (early : Prints file first before middle)
    (late : Prints file second middle after) : Prints file (first ++ second) before after where
  descriptors := late.descriptors.trans early.descriptors
  fileno := late.fileno.trans early.fileno
  buffering := late.buffering.trans early.buffering
  capacity := late.capacity.trans early.capacity
  gained := by rw [late.gained, early.gained, List.append_assoc]
  others other different := (late.others other different).trans (early.others other different)

theorem Prints.target {file : File} {text : List UInt8} {before after : Process File}
    (prints : Prints file text before after) : after.target after.fileno =
      before.target before.fileno := by
  rw [Process.target, Process.target, prints.descriptors, prints.fileno]

/-! ## Opening and printing -/

variable [DecidableEq File]

/-- `fopen(.., "w")`, without the buffer of the new stream -/
def fopen (granted : Bool) (file : File) (process : Process File) :
    Option (Nat × Process File) :=
  if granted then
    some (process.descriptors.lowest, { process with
      descriptors := process.descriptors.redirect process.descriptors.lowest (some file)
      contents := Function.update process.contents file [] })
  else none

def fflush (process : Process File) : Process File :=
  match process.target process.fileno with
  | some file => { process with
      contents := Function.update process.contents file
        (process.contents file ++ process.pending)
      pending := [] }
  | none => process

def newline : UInt8 := 10

def putc (process : Process File) (byte : UInt8) : Process File :=
  let held := { process with pending := process.pending ++ [byte] }
  if process.capacity ≤ held.pending.length ∨ process.buffering = .line ∧ byte = newline then
    held.fflush
  else held

def puts (process : Process File) (text : List UInt8) : Process File := text.foldl putc process

theorem fflush_prints {file : File} {process : Process File}
    (refers : process.target process.fileno = some file) :
    Prints file [] process process.fflush ∧ process.fflush.pending = [] := by
  simp only [fflush, refers]
  refine ⟨⟨rfl, rfl, rfl, rfl, by simp, ?_⟩, trivial⟩
  intro other different
  exact Function.update_of_ne different ..

theorem putc_prints {file : File} {process : Process File}
    (refers : process.target process.fileno = some file) (byte : UInt8) :
    Prints file [byte] process (process.putc byte) := by
  have held : Prints file [byte] process { process with pending := process.pending ++ [byte] } :=
    ⟨rfl, rfl, rfl, rfl, by simp, fun _ _ => rfl⟩
  rw [putc]
  split
  · have flushed := (fflush_prints (held.target.trans refers)).1
    simpa using held.trans flushed
  · exact held

/-- Whatever the buffering, when the buffer is written does not show in the end. -/
theorem puts_prints {file : File} (text : List UInt8) :
    ∀ process : Process File, process.target process.fileno = some file →
      Prints file text process (process.puts text) := by
  induction text with
  | nil => intro process _; exact Prints.refl file process
  | cons byte text ih =>
      intro process refers
      have first := putc_prints refers byte
      exact first.trans (ih (process.putc byte) (first.target.trans refers))

theorem puts_fflush {file : File} {process : Process File}
    (refers : process.target process.fileno = some file) (text : List UInt8) :
    Prints file text process (process.puts text).fflush ∧
      (process.puts text).fflush.pending = [] ∧
      (process.puts text).fflush.contents file =
        process.contents file ++ process.pending ++ text := by
  have printed := puts_prints text process refers
  obtain ⟨flushed, empty⟩ := fflush_prints (printed.target.trans refers)
  have whole := printed.trans flushed
  rw [List.append_nil] at whole
  refine ⟨whole, empty, ?_⟩
  have gained := whole.gained
  rwa [empty, List.append_nil] at gained

end Process

end Stdio
