import WebserverEthercat.Lib.CString
import WebserverEthercat.Lib.Stdio

/-!
# Capturing the dump

`redirect_terminal_to_text_file` points the descriptor of `stdout` to the output
file while the dump is printed.  The buffer of `stdout` is flushed behind the
dump but not in front of it, so what was pending goes to the file as well.

The messages of `perror` go to `stderr` and are left out.
-/

set_option autoImplicit false

namespace WebserverEthercat

open Stdio CString

inductive OutputTarget where
  | terminal
  | outputFile
deriving DecidableEq, Repr

/-- Whether the calls succeed. -/
structure RedirectCalls where
  fopenOk : Bool
  dupOk : Bool
  redirectOk : Bool
  restoreOk : Bool
deriving DecidableEq, Repr

/-- `text` is what `func` prints. -/
def redirectTerminalToTextFile (calls : RedirectCalls) (text : List UInt8)
    (process : Process OutputTarget) : Process OutputTarget :=
  match process.fopen calls.fopenOk .outputFile with
  | none => process
  | some (outputFile, process) =>
      match process.dup calls.dupOk process.fileno with
      | none => process.close outputFile
      | some (savedStdout, process) =>
          match process.dup2 calls.redirectOk outputFile process.fileno with
          | none => process.close outputFile
          | some process =>
              let process := (process.puts text).fflush
              -- a restore that fails is reported and nothing else
              let process := (process.dup2 calls.restoreOk savedStdout process.fileno).getD process
              (process.close savedStdout).close outputFile

/-! ## The property -/

/-- The process at the call: `stdout` is on the terminal. -/
structure OnTerminal where
  process : Process OutputTarget
  refers : process.target process.fileno = some .terminal

def RedirectCalls.reachFunc (calls : RedirectCalls) : Prop :=
  calls.fopenOk = true ∧ calls.dupOk = true ∧ calls.redirectOk = true

/-- The file holds the text, and the terminal gets what was pending and what comes later. -/
structure Captured (entry after : Process OutputTarget) (text : List UInt8) : Prop where
  file : after.contents .outputFile = text
  terminal : ∀ later, (after.puts later).fflush.contents .terminal =
    entry.contents .terminal ++ entry.pending ++ later
  keepsFile : ∀ later, (after.puts later).fflush.contents .outputFile = text

structure Untouched (entry after : Process OutputTarget) : Prop where
  terminal : after.target after.fileno = some .terminal
  descriptors : ∀ fd, after.target fd = entry.target fd

structure Undisturbed (calls : RedirectCalls) (text : List UInt8) (entry : OnTerminal) : Prop where
  captured : calls.reachFunc → calls.restoreOk = true →
    Captured entry.process (redirectTerminalToTextFile calls text entry.process) text
  untouched : ¬ calls.reachFunc →
    Untouched entry.process (redirectTerminalToTextFile calls text entry.process)

/-! ## The calls that succeed -/

namespace OnTerminal

variable (entry : OnTerminal)

def outputFile : Nat := entry.process.descriptors.lowest

def opened : Process OutputTarget :=
  { entry.process with
    descriptors := entry.process.descriptors.redirect entry.outputFile (some .outputFile)
    contents := Function.update entry.process.contents .outputFile [] }

def savedStdout : Nat := entry.opened.descriptors.lowest

def saved : Process OutputTarget :=
  { entry.opened with
    descriptors := entry.opened.descriptors.redirect entry.savedStdout (some .terminal) }

def redirected : Process OutputTarget :=
  { entry.saved with
    descriptors := entry.saved.descriptors.redirect entry.process.fileno (some .outputFile) }

theorem opened_target {fd : Nat} (different : fd ≠ entry.outputFile) :
    entry.opened.target fd = entry.process.target fd :=
  entry.process.descriptors.redirect_other _ different

theorem opened_outputFile : entry.opened.target entry.outputFile = some .outputFile :=
  entry.process.descriptors.redirect_same ..

theorem saved_target {fd : Nat} (different : fd ≠ entry.savedStdout) :
    entry.saved.target fd = entry.opened.target fd :=
  entry.opened.descriptors.redirect_other _ different

theorem saved_savedStdout : entry.saved.target entry.savedStdout = some .terminal :=
  entry.opened.descriptors.redirect_same ..

theorem fileno_ne_outputFile : entry.process.fileno ≠ entry.outputFile :=
  Descriptors.ne_lowest entry.refers

theorem opened_fileno : entry.opened.target entry.process.fileno = some .terminal :=
  (entry.opened_target entry.fileno_ne_outputFile).trans entry.refers

theorem fileno_ne_savedStdout : entry.process.fileno ≠ entry.savedStdout :=
  Descriptors.ne_lowest entry.opened_fileno

theorem outputFile_ne_savedStdout : entry.outputFile ≠ entry.savedStdout :=
  Descriptors.ne_lowest entry.opened_outputFile

theorem closed_outputFile : entry.process.target entry.outputFile = none :=
  entry.process.descriptors.target_lowest

theorem closed_savedStdout : entry.process.target entry.savedStdout = none := by
  rw [← entry.opened_target entry.outputFile_ne_savedStdout.symm]
  exact entry.opened.descriptors.target_lowest

theorem redirected_target {fd : Nat} (notStdout : fd ≠ entry.process.fileno)
    (notSaved : fd ≠ entry.savedStdout) (notOutput : fd ≠ entry.outputFile) :
    entry.redirected.target fd = entry.process.target fd := by
  have kept : entry.redirected.target fd = entry.saved.target fd :=
    entry.saved.descriptors.redirect_other _ notStdout
  rw [kept, entry.saved_target notSaved, entry.opened_target notOutput]

theorem redirected_savedStdout :
    entry.redirected.target entry.savedStdout = some .terminal := by
  have kept : entry.redirected.target entry.savedStdout = entry.saved.target entry.savedStdout :=
    entry.saved.descriptors.redirect_other _ entry.fileno_ne_savedStdout.symm
  rw [kept, entry.saved_savedStdout]

theorem redirected_fileno : entry.redirected.target entry.redirected.fileno = some .outputFile :=
  entry.saved.descriptors.redirect_same ..

theorem redirected_file : entry.redirected.contents .outputFile = [] := by
  simp [redirected, saved, opened]

theorem redirected_terminal :
    entry.redirected.contents .terminal = entry.process.contents .terminal := by
  simp [redirected, saved, opened]

theorem fopen_entry :
    entry.process.fopen true .outputFile = some (entry.outputFile, entry.opened) := rfl

theorem dup_opened :
    entry.opened.dup true entry.opened.fileno = some (entry.savedStdout, entry.saved) :=
  Process.dup_granted entry.opened_fileno

theorem dup2_saved :
    entry.saved.dup2 true entry.outputFile entry.saved.fileno = some entry.redirected :=
  Process.dup2_granted
    ((entry.saved_target entry.outputFile_ne_savedStdout).trans entry.opened_outputFile) _

/-! ## The exits -/

variable (calls : RedirectCalls) (text : List UInt8)

theorem exit_fopen (fails : calls.fopenOk = false) :
    redirectTerminalToTextFile calls text entry.process = entry.process := by
  simp [redirectTerminalToTextFile, fails, Process.fopen]

theorem exit_dup (fopenOk : calls.fopenOk = true) (fails : calls.dupOk = false) :
    redirectTerminalToTextFile calls text entry.process =
      entry.opened.close entry.outputFile := by
  simp [redirectTerminalToTextFile, fopenOk, fails, fopen_entry, Process.dup]

theorem exit_dup2 (fopenOk : calls.fopenOk = true) (dupOk : calls.dupOk = true)
    (fails : calls.redirectOk = false) :
    redirectTerminalToTextFile calls text entry.process =
      entry.saved.close entry.outputFile := by
  simp [redirectTerminalToTextFile, fopenOk, dupOk, fails, fopen_entry, dup_opened, Process.dup2]

def printed : Process OutputTarget := (entry.redirected.puts text).fflush

theorem exit_reached (reached : calls.reachFunc) :
    redirectTerminalToTextFile calls text entry.process =
      ((((entry.printed text).dup2 calls.restoreOk entry.savedStdout
        (entry.printed text).fileno).getD (entry.printed text)).close entry.savedStdout).close
          entry.outputFile := by
  obtain ⟨fopenOk, dupOk, redirectOk⟩ := reached
  simp only [redirectTerminalToTextFile, fopenOk, dupOk, redirectOk, fopen_entry, dup_opened,
    dup2_saved]
  rfl

/-- The descriptors and the contents behind a call that restores `stdout`. -/
structure Restored (entry : OnTerminal) (text : List UInt8) (after : Process OutputTarget) :
    Prop where
  fileno : after.fileno = entry.process.fileno
  pending : after.pending = []
  file : after.contents .outputFile = entry.process.pending ++ text
  terminal : after.contents .terminal = entry.process.contents .terminal
  descriptors : ∀ fd, after.target fd = entry.process.target fd

theorem exit_restored (reached : calls.reachFunc) (restored : calls.restoreOk = true) :
    Restored entry text (redirectTerminalToTextFile calls text entry.process) := by
  obtain ⟨prints, empty, contents⟩ := Process.puts_fflush entry.redirected_fileno text
  have same (fd : Nat) : (entry.printed text).target fd = entry.redirected.target fd :=
    congrArg (fun descriptors => descriptors.target fd) prints.descriptors
  have fileno : (entry.printed text).fileno = entry.process.fileno := prints.fileno
  have saved := (same _).trans entry.redirected_savedStdout
  rw [exit_reached entry calls text reached, restored, Process.dup2_granted saved,
    Option.getD_some, fileno]
  refine ⟨rfl, empty, ?_, ?_, ?_⟩
  · rw [redirected_file, List.nil_append] at contents
    exact contents
  · exact (prints.others .terminal (by decide)).trans entry.redirected_terminal
  · intro fd
    by_cases atOutput : fd = entry.outputFile
    · rw [atOutput, Process.close_same, entry.closed_outputFile]
    rw [Process.close_other _ atOutput]
    by_cases atSaved : fd = entry.savedStdout
    · rw [atSaved, Process.close_same, entry.closed_savedStdout]
    rw [Process.close_other _ atSaved]
    by_cases atStdout : fd = entry.process.fileno
    · rw [atStdout, entry.refers]
      exact (entry.printed text).descriptors.redirect_same ..
    · rw [← entry.redirected_target atStdout atSaved atOutput, ← same]
      exact (entry.printed text).descriptors.redirect_other _ atStdout

end OnTerminal

/-! ## When the call does not disturb `stdout` -/

theorem captured_iff {entry : OnTerminal} {text : List UInt8} {after : Process OutputTarget}
    (restored : entry.Restored text after) :
    Captured entry.process after text ↔ entry.process.pending = [] := by
  constructor
  · intro captured
    have file := restored.file
    rw [captured.file] at file
    exact List.self_eq_append_left.mp file
  · intro nothing
    have refers : after.target after.fileno = some .terminal := by
      rw [restored.fileno, restored.descriptors, entry.refers]
    have file : after.contents .outputFile = text := by rw [restored.file, nothing]; rfl
    refine ⟨file, fun later => ?_, fun later => ?_⟩
    · obtain ⟨-, -, contents⟩ := Process.puts_fflush refers later
      rw [contents, restored.terminal, restored.pending, nothing]
    · obtain ⟨prints, -, -⟩ := Process.puts_fflush refers later
      exact (prints.others .outputFile (by decide)).trans file

/-- The saved descriptor stays open when the first `dup2` fails. -/
theorem exit_dup2_leaks (entry : OnTerminal) :
    ¬ Untouched entry.process (entry.saved.close entry.outputFile) := by
  intro untouched
  have same := untouched.descriptors entry.savedStdout
  rw [Process.close_other _ entry.outputFile_ne_savedStdout.symm, entry.saved_savedStdout,
    entry.closed_savedStdout] at same
  cases same

theorem untouched_of_exit_dup (entry : OnTerminal) :
    Untouched entry.process (entry.opened.close entry.outputFile) := by
  have same (fd : Nat) :
      (entry.opened.close entry.outputFile).target fd = entry.process.target fd := by
    by_cases atOutput : fd = entry.outputFile
    · rw [atOutput, Process.close_same, entry.closed_outputFile]
    · rw [Process.close_other _ atOutput, entry.opened_target atOutput]
  exact ⟨(same _).trans entry.refers, same⟩

theorem untouched_iff (calls : RedirectCalls) (text : List UInt8) (entry : OnTerminal)
    (stops : ¬ calls.reachFunc) :
    Untouched entry.process (redirectTerminalToTextFile calls text entry.process) ↔
      ¬ (calls.fopenOk = true ∧ calls.dupOk = true ∧ calls.redirectOk = false) := by
  cases fopenOk : calls.fopenOk with
  | false =>
      rw [entry.exit_fopen calls text fopenOk]
      simp only [Bool.false_eq_true, false_and, not_false_eq_true, iff_true]
      exact ⟨entry.refers, fun _ => rfl⟩
  | true =>
      cases dupOk : calls.dupOk with
      | false =>
          rw [entry.exit_dup calls text fopenOk dupOk]
          simp only [Bool.false_eq_true, false_and, and_false, not_false_eq_true, iff_true]
          exact untouched_of_exit_dup entry
      | true =>
          have fails : calls.redirectOk = false := by
            simpa [RedirectCalls.reachFunc, fopenOk, dupOk] using stops
          rw [entry.exit_dup2 calls text fopenOk dupOk fails]
          simp only [fails, and_self, not_true_eq_false, iff_false]
          exact exit_dup2_leaks entry

/-- `stdout` is not disturbed exactly when nothing was pending, where the dump is captured, and
the first `dup2`, where it is called, succeeds. -/
theorem redirect_undisturbed_iff (calls : RedirectCalls) (text : List UInt8)
    (entry : OnTerminal) :
    Undisturbed calls text entry ↔
      (calls.reachFunc → calls.restoreOk = true → entry.process.pending = []) ∧
        ¬ (calls.fopenOk = true ∧ calls.dupOk = true ∧ calls.redirectOk = false) := by
  constructor
  · intro undisturbed
    constructor
    · intro reached restored
      exact (captured_iff (entry.exit_restored calls text reached restored)).mp
        (undisturbed.captured reached restored)
    · intro leaks
      have stops : ¬ calls.reachFunc := by simp [RedirectCalls.reachFunc, leaks.2.2]
      exact (untouched_iff calls text entry stops).mp (undisturbed.untouched stops) leaks
  · rintro ⟨nothing, noLeak⟩
    constructor
    · intro reached restored
      exact (captured_iff (entry.exit_restored calls text reached restored)).mpr
        (nothing reached restored)
    · intro stops
      exact (untouched_iff calls text entry stops).mpr noLeak

/-! ## The dump of a run without the interface -/

/-- The line that `initialize_ethercat` leaves without its end. -/
def failedToUse : List UInt8 := ascii "ec: initialize_ethercat: Failed to use enp0s31f6 - abort"

/-- What `print_slaveinfo` prints first. -/
def slaveinfoTitle : List UInt8 := ascii "SOEM (Simple Open EtherCAT Master)\nSlaveinfo\n"

def afterFailedStart : OnTerminal where
  process :=
    { descriptors := ⟨fun fd => if fd < 3 then some .terminal else none, 3, by
        intro fd above
        exact if_neg (by omega)⟩
      contents := fun _ => []
      fileno := 1
      buffering := .line
      capacity := 1024
      pending := failedToUse }
  refers := rfl

/-- The pending line goes to the file, and the descriptor 4 stays open when `dup2` fails. -/
theorem pending_line_captured :
    (redirectTerminalToTextFile ⟨true, true, true, true⟩ slaveinfoTitle
        afterFailedStart.process).contents .outputFile = failedToUse ++ slaveinfoTitle ∧
      ¬ Undisturbed ⟨true, true, true, true⟩ slaveinfoTitle afterFailedStart ∧
      (redirectTerminalToTextFile ⟨true, true, false, true⟩ slaveinfoTitle
        afterFailedStart.process).target 4 = some .terminal ∧
      ¬ Undisturbed ⟨true, true, false, true⟩ slaveinfoTitle afterFailedStart := by
  have restored := afterFailedStart.exit_restored ⟨true, true, true, true⟩ slaveinfoTitle
    ⟨rfl, rfl, rfl⟩ rfl
  have stops : ¬ RedirectCalls.reachFunc ⟨true, true, false, true⟩ := fun reached =>
    Bool.false_ne_true reached.2.2
  refine ⟨restored.file, ?_, ?_, ?_⟩
  · intro undisturbed
    have nothing := (captured_iff restored).mp (undisturbed.captured ⟨rfl, rfl, rfl⟩ rfl)
    exact absurd nothing (by decide)
  · decide +kernel
  · intro undisturbed
    exact (untouched_iff _ slaveinfoTitle afterFailedStart stops).mp (undisturbed.untouched stops)
      ⟨rfl, rfl, rfl⟩

end WebserverEthercat
