import Mathlib.Algebra.Ring.Int.Defs
import Mathlib.Data.List.TakeWhile
import Mathlib.Tactic.Common

/-!
# C strings in memory blocks

A block is the list of its allocated cells; a cell that nothing has been
written to is `none`.  A pointer into a block is the rest of the block from
there.  The string functions of C run on blocks, and a read past the end of the
block or of an unwritten cell makes them fail.  `Holds block text` says that
the block starts with a terminated string; on such blocks the functions are the
expected ones on lists.
-/

set_option autoImplicit false

namespace CString

abbrev Block := List (Option UInt8)

def uninitialised (size : Nat) : Block := List.replicate size none

@[simp] theorem length_uninitialised (size : Nat) : (uninitialised size).length = size :=
  List.length_replicate

def load (block : Block) (position : Nat) : Option UInt8 := (block[position]?).join

def store (block : Block) (position : Nat) (byte : UInt8) : Option Block :=
  if position < block.length then some (block.set position (some byte)) else none

def strlen : Block → Option Nat
  | [] | none :: _ => none
  | some byte :: rest => if byte = 0 then some 0 else (strlen rest).map (· + 1)

/-- The offset of the first `wanted`; the inner `none` is the null pointer. -/
def strchr (wanted : UInt8) : Block → Option (Option Nat)
  | [] | none :: _ => none
  | some byte :: rest =>
      if byte = wanted then some (some 0)
      else if byte = 0 then some none
      else (strchr wanted rest).map (Option.map (· + 1))

/-- The copy of `strdup`, whose allocation is taken to succeed. -/
def strdup (block : Block) : Option Block :=
  (strlen block).map fun length => block.take (length + 1)

/-- Writes `count` cells of the destination: the source up to its terminator,
then zeros.  No terminator is written when the source is too long. -/
def strncpy : Nat → Block → Block → Option Block
  | 0, destination, _ => some destination
  | _ + 1, [], _ | _ + 1, _ :: _, [] | _ + 1, _ :: _, none :: _ => none
  | count + 1, _ :: destination, some byte :: source =>
      if byte = 0 then
        if count ≤ destination.length then
          some (List.replicate (count + 1) (some 0) ++ destination.drop count)
        else none
      else (strncpy count destination source).map (some byte :: ·)

/-- `strcmp(block, text) == 0` for a literal `text`. -/
def strcmpEqual : Block → List UInt8 → Option Bool
  | [], _ | none :: _, _ => none
  | some byte :: _, [] => some (byte = 0)
  | some byte :: rest, expected :: text =>
      if byte = expected then strcmpEqual rest text else some false

/-- The string that a block starts with. -/
def cstring : Block → Option (List UInt8)
  | [] | none :: _ => none
  | some byte :: rest => if byte = 0 then some [] else (cstring rest).map (byte :: ·)

/-- In the C locale. -/
def isspace (byte : UInt8) : Bool := byte = 32 ∨ 9 ≤ byte ∧ byte ≤ 13

def isdigit (byte : UInt8) : Bool := 48 ≤ byte ∧ byte ≤ 57

/-- The number of leading spaces. -/
def skipSpaces : Block → Option Nat
  | [] | none :: _ => none
  | some byte :: rest => if isspace byte then (skipSpaces rest).map (· + 1) else some 0

def digitsFrom (value : Nat) : Block → Option Nat
  | [] | none :: _ => none
  | some byte :: rest =>
      if isdigit byte then digitsFrom (10 * value + (byte.toNat - 48)) rest else some value

/-- `strtol` with base 10 and a 64-bit `long`: out of range is clamped. -/
def strtol (block : Block) : Option Int := do
  let spaces ← skipSpaces block
  let clamp := fun value : Int => max (-2 ^ 63) (min (2 ^ 63 - 1) value)
  match block.drop spaces with
  | some 45 :: digits => (digitsFrom 0 digits).map fun value : Nat => clamp (-value)
  | some 43 :: digits => (digitsFrom 0 digits).map fun value : Nat => clamp value
  | digits => (digitsFrom 0 digits).map fun value : Nat => clamp value

/-- `(int)strtol(block, NULL, 10)` -/
def atoi (block : Block) : Option Int32 := (strtol block).map Int32.ofInt

/-! ## Terminated strings -/

def ascii (text : String) : List UInt8 := text.toList.map fun letter => UInt8.ofNat letter.toNat

def terminated (text : List UInt8) : Block := text.map some ++ [some 0]

structure Holds (block : Block) (text : List UInt8) : Prop where
  noNul : 0 ∉ text
  cells : ∃ rest, block = text.map some ++ some 0 :: rest

theorem holds_terminated {text : List UInt8} (noNul : 0 ∉ text) :
    Holds (terminated text) text :=
  ⟨noNul, [], rfl⟩

theorem holds_nil_iff (block : Block) : Holds block [] ↔ ∃ rest, block = some 0 :: rest :=
  ⟨fun holds => holds.cells, fun cells => ⟨by simp, cells⟩⟩

theorem holds_cons_iff (block : Block) (byte : UInt8) (text : List UInt8) :
    Holds block (byte :: text) ↔
      byte ≠ 0 ∧ ∃ rest, block = some byte :: rest ∧ Holds rest text := by
  constructor
  · intro holds
    obtain ⟨rest, cells⟩ := holds.cells
    have noNul := holds.noNul
    simp only [List.mem_cons, not_or] at noNul
    exact ⟨Ne.symm noNul.1, _, cells, noNul.2, rest, rfl⟩
  · rintro ⟨nonzero, rest, rfl, holds⟩
    obtain ⟨after, rfl⟩ := holds.cells
    refine ⟨?_, after, rfl⟩
    simp only [List.mem_cons, not_or]
    exact ⟨Ne.symm nonzero, holds.noNul⟩

theorem holds_takeWhile (text : List UInt8) :
    Holds (terminated text) (text.takeWhile (· ≠ 0)) := by
  induction text with
  | nil => exact (holds_nil_iff _).mpr ⟨[], rfl⟩
  | cons byte text ih =>
      by_cases zero : byte = 0
      · rw [List.takeWhile_cons_of_neg (by simpa using zero), zero]
        exact (holds_nil_iff _).mpr ⟨terminated text, rfl⟩
      · rw [List.takeWhile_cons_of_pos (by simpa using zero)]
        exact (holds_cons_iff ..).mpr ⟨zero, _, rfl, ih⟩

theorem Holds.drop {block : Block} {before after : List UInt8}
    (holds : Holds block (before ++ after)) : Holds (block.drop before.length) after := by
  obtain ⟨rest, cells⟩ := holds.cells
  have noNul := holds.noNul
  simp only [List.mem_append, not_or] at noNul
  refine ⟨noNul.2, rest, ?_⟩
  have length : before.length = (before.map some : Block).length := by simp
  rw [cells, List.map_append, List.append_assoc, length, List.drop_left]

theorem Holds.length_lt {block : Block} {text : List UInt8} (holds : Holds block text) :
    text.length < block.length := by
  obtain ⟨rest, rfl⟩ := holds.cells
  simp

theorem cstring_of_holds (text : List UInt8) :
    ∀ block, Holds block text → cstring block = some text := by
  induction text with
  | nil =>
      intro block holds
      obtain ⟨rest, rfl⟩ := (holds_nil_iff block).mp holds
      rfl
  | cons byte text ih =>
      intro block holds
      obtain ⟨nonzero, rest, rfl, tail⟩ := (holds_cons_iff ..).mp holds
      simp [cstring, nonzero, ih rest tail]

theorem strlen_of_holds (text : List UInt8) :
    ∀ block, Holds block text → strlen block = some text.length := by
  induction text with
  | nil =>
      intro block holds
      obtain ⟨rest, rfl⟩ := (holds_nil_iff block).mp holds
      rfl
  | cons byte text ih =>
      intro block holds
      obtain ⟨nonzero, rest, rfl, tail⟩ := (holds_cons_iff ..).mp holds
      simp [strlen, nonzero, ih rest tail]

/-- A block without a terminator is read past its end. -/
theorem strlen_unterminated (text : List UInt8) (noNul : 0 ∉ text) :
    strlen (text.map some) = none := by
  induction text with
  | nil => rfl
  | cons byte text ih =>
      simp only [List.mem_cons, not_or] at noNul
      simp [strlen, Ne.symm noNul.1, ih noNul.2]

theorem strdup_of_holds {block : Block} {text : List UInt8} (holds : Holds block text) :
    strdup block = some (terminated text) := by
  have length := strlen_of_holds text block holds
  obtain ⟨rest, rfl⟩ := holds.cells
  simp only [strdup, length, Option.map_some, Option.some.injEq, terminated]
  rw [List.take_append, List.take_of_length_le (by simp)]
  simp

theorem strchr_of_holds_split (wanted : UInt8) (before after : List UInt8)
    (absent : wanted ∉ before) :
    ∀ block, Holds block (before ++ wanted :: after) →
      strchr wanted block = some (some before.length) := by
  induction before with
  | nil =>
      intro block holds
      obtain ⟨-, rest, rfl, -⟩ := (holds_cons_iff ..).mp holds
      simp [strchr]
  | cons byte before ih =>
      intro block holds
      obtain ⟨notNul, rest, rfl, tail⟩ := (holds_cons_iff ..).mp holds
      simp only [List.mem_cons, not_or] at absent
      simp [strchr, Ne.symm absent.1, notNul, ih absent.2 rest tail]

theorem strchr_of_holds_absent (wanted : UInt8) (nonzero : wanted ≠ 0) (text : List UInt8)
    (absent : wanted ∉ text) :
    ∀ block, Holds block text → strchr wanted block = some none := by
  induction text with
  | nil =>
      intro block holds
      obtain ⟨rest, rfl⟩ := (holds_nil_iff block).mp holds
      simp [strchr, Ne.symm nonzero]
  | cons byte text ih =>
      intro block holds
      obtain ⟨notNul, rest, rfl, tail⟩ := (holds_cons_iff ..).mp holds
      simp only [List.mem_cons, not_or] at absent
      simp [strchr, Ne.symm absent.1, notNul, ih absent.2 rest tail]

theorem strcmpEqual_of_holds (text : List UInt8) :
    ∀ (block : Block) (literal : List UInt8), 0 ∉ literal → Holds block text →
      strcmpEqual block literal = some (text == literal) := by
  induction text with
  | nil =>
      intro block literal noNul holds
      obtain ⟨rest, rfl⟩ := (holds_nil_iff block).mp holds
      cases literal with
      | nil => rfl
      | cons expected literal =>
          simp only [List.mem_cons, not_or] at noNul
          simp [strcmpEqual, noNul.1]
  | cons byte text ih =>
      intro block literal noNul holds
      obtain ⟨notNul, rest, rfl, tail⟩ := (holds_cons_iff ..).mp holds
      cases literal with
      | nil => simp [strcmpEqual, notNul]
      | cons expected literal =>
          simp only [List.mem_cons, not_or] at noNul
          by_cases same : byte = expected
          · simp [strcmpEqual, same, ih rest literal noNul.2 tail]
          · simp [strcmpEqual, same]

/-! ## Copies -/

/-- Copying exactly a prefix leaves the rest of the destination alone. -/
theorem strncpy_prefix (text : List UInt8) (noNul : 0 ∉ text) :
    ∀ (destination source : Block), text.length ≤ destination.length →
      strncpy text.length destination (text.map some ++ source) =
        some (text.map some ++ destination.drop text.length) := by
  induction text with
  | nil => intro destination source _; rfl
  | cons byte text ih =>
      intro destination source room
      simp only [List.mem_cons, not_or] at noNul
      cases destination with
      | nil => simp at room
      | cons cell destination =>
          simp only [List.length_cons, Nat.add_le_add_iff_right] at room
          have tail := ih noNul.2 destination source room
          simp [strncpy, Ne.symm noNul.1, tail]

/-- What is copied depends on the string alone, not on what is behind it. -/
theorem strncpy_congr (text : List UInt8) :
    ∀ (count : Nat) (destination first second : Block), Holds first text → Holds second text →
      strncpy count destination first = strncpy count destination second := by
  induction text with
  | nil =>
      intro count destination first second firstHolds secondHolds
      obtain ⟨firstRest, rfl⟩ := (holds_nil_iff first).mp firstHolds
      obtain ⟨secondRest, rfl⟩ := (holds_nil_iff second).mp secondHolds
      cases count <;> cases destination <;> simp [strncpy]
  | cons byte text ih =>
      intro count destination first second firstHolds secondHolds
      obtain ⟨nonzero, firstRest, rfl, firstTail⟩ := (holds_cons_iff ..).mp firstHolds
      obtain ⟨-, secondRest, rfl, secondTail⟩ := (holds_cons_iff ..).mp secondHolds
      cases count with
      | zero => rfl
      | succ count =>
          cases destination with
          | nil => rfl
          | cons cell destination =>
              simp [strncpy, nonzero, ih count destination firstRest secondRest firstTail
                secondTail]

theorem strncpy_holds (text : List UInt8) :
    ∀ (count : Nat) (destination source : Block), Holds source text → text.length < count →
      count ≤ destination.length →
      ∃ copy, strncpy count destination source = some copy ∧ Holds copy text ∧
        copy.length = destination.length := by
  induction text with
  | nil =>
      intro count destination source holds short room
      obtain ⟨rest, rfl⟩ := (holds_nil_iff source).mp holds
      obtain ⟨count, rfl⟩ := Nat.exists_eq_succ_of_ne_zero (Nat.ne_of_gt short)
      cases destination with
      | nil => simp at room
      | cons cell destination =>
          simp only [List.length_cons, Nat.succ_eq_add_one, Nat.add_le_add_iff_right] at room
          refine ⟨List.replicate (count + 1) (some 0) ++ destination.drop count,
            by simp [strncpy, room], ?_, ?_⟩
          · rw [holds_nil_iff, List.replicate_succ]
            exact ⟨_, rfl⟩
          · simp only [List.length_append, List.length_replicate, List.length_drop,
              List.length_cons]
            omega
  | cons byte text ih =>
      intro count destination source holds short room
      obtain ⟨notNul, rest, rfl, tail⟩ := (holds_cons_iff ..).mp holds
      obtain ⟨count, rfl⟩ := Nat.exists_eq_succ_of_ne_zero (Nat.ne_of_gt (Nat.zero_lt_of_lt short))
      cases destination with
      | nil => simp at room
      | cons cell destination =>
          simp only [List.length_cons, Nat.succ_eq_add_one, Nat.add_lt_add_iff_right,
            Nat.add_le_add_iff_right] at room short
          obtain ⟨copy, copied, copyHolds, size⟩ := ih count destination rest tail short room
          refine ⟨some byte :: copy, by simp [strncpy, notNul, copied], ?_, by simp [size]⟩
          exact (holds_cons_iff ..).mpr ⟨notNul, copy, rfl, copyHolds⟩

/-! ## Single cells -/

theorem load_getElem {block : Block} {text : List UInt8} (holds : Holds block text)
    (position : Nat) (inside : position < text.length) :
    load block position = some text[position] := by
  obtain ⟨rest, rfl⟩ := holds.cells
  simp [load, List.getElem?_append_left, inside]

theorem load_of_holds {block : Block} (before after : List UInt8) {byte : UInt8}
    (holds : Holds block (before ++ byte :: after)) : load block before.length = some byte := by
  obtain ⟨rest, rfl⟩ := holds.cells
  simp [load]

theorem load_terminator {block : Block} {text : List UInt8} (holds : Holds block text) :
    load block text.length = some 0 := by
  obtain ⟨rest, rfl⟩ := holds.cells
  simp [load]

theorem store_terminator {block : Block} (before after : List UInt8)
    (holds : Holds block (before ++ after)) :
    ∃ cut, store block before.length 0 = some cut ∧ Holds cut before ∧
      cut.length = block.length := by
  have length := holds.length_lt
  have noNul := holds.noNul
  simp only [List.length_append] at length
  simp only [List.mem_append, not_or] at noNul
  refine ⟨block.set before.length (some 0), by rw [store, if_pos (by omega)], ?_, by simp⟩
  obtain ⟨rest, rfl⟩ := holds.cells
  refine ⟨noNul.1, (after.map some ++ some 0 :: rest).tail, ?_⟩
  cases after <;> simp

theorem skipSpaces_of_holds (spaces : List UInt8) (blank : ∀ byte ∈ spaces, isspace byte)
    (text : List UInt8) (stops : ∀ byte rest, text = byte :: rest → ¬ isspace byte) :
    ∀ block, Holds block (spaces ++ text) → skipSpaces block = some spaces.length := by
  induction spaces with
  | nil =>
      intro block holds
      cases text with
      | nil =>
          obtain ⟨rest, rfl⟩ := (holds_nil_iff block).mp holds
          rfl
      | cons byte text =>
          obtain ⟨-, rest, rfl, -⟩ := (holds_cons_iff ..).mp holds
          simp [skipSpaces, stops byte text rfl]
  | cons space spaces ih =>
      intro block holds
      obtain ⟨-, rest, rfl, tail⟩ := (holds_cons_iff ..).mp holds
      have here := blank space List.mem_cons_self
      have later := ih (fun byte member => blank byte (List.mem_cons_of_mem _ member)) rest tail
      simp [skipSpaces, here, later]

theorem skipSpaces_total {block : Block} {text : List UInt8} (holds : Holds block text) :
    ∃ spaces rest, skipSpaces block = some spaces ∧ Holds (block.drop spaces) rest := by
  have split := List.takeWhile_append_dropWhile (p := isspace) (l := text)
  rw [← split] at holds
  refine ⟨(text.takeWhile isspace).length, text.dropWhile isspace, ?_, holds.drop⟩
  apply skipSpaces_of_holds _ (fun byte => List.mem_takeWhile_imp) _ _ _ holds
  intro byte rest same
  have first := List.head?_dropWhile_not isspace text
  simpa [same] using first

/-! ## Numbers -/

theorem digitsFrom_total (text : List UInt8) :
    ∀ (value : Nat) (block : Block), Holds block text →
      ∃ number, digitsFrom value block = some number := by
  induction text with
  | nil =>
      intro value block holds
      obtain ⟨rest, rfl⟩ := (holds_nil_iff block).mp holds
      exact ⟨value, rfl⟩
  | cons byte text ih =>
      intro value block holds
      obtain ⟨-, rest, rfl, tail⟩ := (holds_cons_iff ..).mp holds
      by_cases digit : isdigit byte = true
      · obtain ⟨number, read⟩ := ih (10 * value + (byte.toNat - 48)) rest tail
        exact ⟨number, by simp [digitsFrom, digit, read]⟩
      · exact ⟨value, by simp [digitsFrom, digit]⟩

theorem Holds.tail {byte : UInt8} {block : Block} {text : List UInt8}
    (holds : Holds (some byte :: block) text) (nonzero : byte ≠ 0) :
    ∃ after, Holds block after := by
  cases text with
  | nil =>
      obtain ⟨rest, first⟩ := (holds_nil_iff _).mp holds
      cases first
      exact absurd rfl nonzero
  | cons other text =>
      obtain ⟨-, rest, first, tailHolds⟩ := (holds_cons_iff ..).mp holds
      cases first
      exact ⟨text, tailHolds⟩

theorem atoi_total {block : Block} {text : List UInt8} (holds : Holds block text) :
    ∃ number, atoi block = some number := by
  obtain ⟨spaces, rest, skipped, behind⟩ := skipSpaces_total holds
  have digits (value : Nat) {tail : Block} {after : List UInt8} (tailHolds : Holds tail after) :
      (digitsFrom value tail).isSome := by
    obtain ⟨number, read⟩ := digitsFrom_total after value tail tailHolds
    simp [read]
  apply Option.isSome_iff_exists.mp
  rw [atoi, Option.isSome_map, strtol, skipped, Option.bind_eq_bind, Option.bind_some]
  dsimp only
  split
  case h_1 tail same | h_2 tail same =>
    rw [same] at behind
    obtain ⟨after, tailHolds⟩ := behind.tail (by decide)
    rw [Option.isSome_map]
    exact digits 0 tailHolds
  case h_3 =>
    rw [Option.isSome_map]
    exact digits 0 behind

end CString
