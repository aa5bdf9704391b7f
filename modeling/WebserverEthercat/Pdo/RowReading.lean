import WebserverEthercat.Dump.Row
import WebserverEthercat.Form.KeyValue
import WebserverEthercat.Lib.Scanf
import WebserverEthercat.Lib.WebText

/-!
# Reading a PDO row back

The server reads a row of `pdo.txt` with two `sscanf` calls, the page splits it
at white space.  A described row has four words of ASCII, the last one perhaps
only the start of the type, and the name behind them.
-/

set_option autoImplicit false

namespace WebserverEthercat

open CString Form WebText

/-- `trim_whitespace(line)` as a string. -/
def trimmedLine (line : Block) : Option (List UInt8) := do
  let (block, str) ← trimWhitespace line
  cstring (block.drop str)

/-- `%*s %*x:%*x %*s %*s %127[^\n]` -/
def nameFormat : List Directive :=
  [.word false, .space, .hex false, .literal 58, .hex false, .space, .word false, .space,
    .word false, .space, .scanset true (some 127) (· ≠ 10)]

/-- `[%*[^.].%*[^]] ] %x:%x %*s %s %127[^\n]` -/
def rowFormat : List Directive :=
  [.literal 91, .scanset false none (· ≠ 46), .literal 46, .scanset false none (· ≠ 93), .space,
    .literal 93, .space, .hex true, .literal 58, .hex true, .space, .word false, .space,
    .word true, .space, .scanset true (some 127) (· ≠ 10)]

/-- `0x%04X:0x%02X` -/
def indexSubText (index subindex : UInt32) : List UInt8 :=
  ascii "0x" ++ upperHex 4 index.toNat ++ ascii ":0x" ++ upperHex 2 subindex.toNat

/-- `line.trim().split(/\s+/)` for a line of `pdo.txt` that is not blank. -/
def pageParts (line : List UInt8) : List (List Nat) := words (utf8Decode line)

/-! ## Words of ASCII -/

structure Token (text : List UInt8) : Prop where
  nonempty : text ≠ []
  visible : ∀ byte ∈ text, isspace byte = false
  ascii : ∀ byte ∈ text, byte < 0x80

theorem whiteSpace_of_ascii {byte : UInt8} (ascii : byte < 0x80) :
    isWhiteSpace byte.toNat = isspace byte := by
  have small : byte.toNat < 128 := by simpa [UInt8.lt_iff_toNat_lt] using ascii
  have same : byte = UInt8.ofNat byte.toNat := by simp
  rw [same]
  generalize byte.toNat = value at small
  revert value
  decide

theorem isspace_ascii {byte : UInt8} (blank : isspace byte = true) : byte < 0x80 := by
  have space : byte = 32 ∨ 9 ≤ byte ∧ byte ≤ 13 := by simpa [isspace] using blank
  simp only [UInt8.lt_iff_toNat_lt, UInt8.le_iff_toNat_le, ← UInt8.toNat_inj,
    UInt8.reduceToNat] at space ⊢
  omega

/-- What C takes for spaces is white space in the page. -/
theorem whiteSpace_of_blank {text : List UInt8} (blank : ∀ byte ∈ text, isspace byte = true) :
    ∀ character ∈ utf8Decode text, isWhiteSpace character = true := by
  intro character member
  have low (byte : UInt8) (here : byte ∈ text) := isspace_ascii (blank byte here)
  have decoded := utf8Decode_append low []
  rw [List.append_nil, show utf8Decode [] = [] from rfl, List.append_nil] at decoded
  rw [decoded] at member
  obtain ⟨byte, here, rfl⟩ := List.mem_map.mp member
  rw [whiteSpace_of_ascii (low byte here), blank byte here]

theorem Token.append {first second : List UInt8} (left : Token first)
    (visible : ∀ byte ∈ second, isspace byte = false) (ascii : ∀ byte ∈ second, byte < 0x80) :
    Token (first ++ second) where
  nonempty := by simp [left.nonempty]
  visible byte member := (List.mem_append.mp member).elim (left.visible byte) (visible byte)
  ascii byte member := (List.mem_append.mp member).elim (left.ascii byte) (ascii byte)

theorem Token.words {token : List UInt8} (word : Token token) {space : UInt8}
    (blank : isspace space = true) (rest : List UInt8) :
    words (utf8Decode (token ++ space :: rest)) = token.map UInt8.toNat :: words (utf8Decode rest) := by
  have low := isspace_ascii blank
  rw [utf8Decode_append word.ascii, utf8Decode_cons low]
  apply words_word
  · simpa using word.nonempty
  · intro character member
    obtain ⟨byte, here, rfl⟩ := List.mem_map.mp member
    rw [whiteSpace_of_ascii (word.ascii byte here), word.visible byte here]
  · rw [whiteSpace_of_ascii low, blank]

theorem Token.words_last {token : List UInt8} (word : Token token) :
    WebText.words (utf8Decode token) = [token.map UInt8.toNat] := by
  have decoded := utf8Decode_append word.ascii []
  rw [List.append_nil, show utf8Decode [] = [] from rfl, List.append_nil] at decoded
  rw [decoded]
  apply words_single
  · simpa using word.nonempty
  · intro character member
    obtain ⟨byte, here, rfl⟩ := List.mem_map.mp member
    rw [whiteSpace_of_ascii (word.ascii byte here), word.visible byte here]

theorem Token.solid {token : List UInt8} (word : Token token) : Solid token :=
  .of_visible word.nonempty word.visible

theorem isxdigit_token {byte : UInt8} (digit : isxdigit byte = true) :
    isspace byte = false ∧ byte < 0x80 := by
  simp only [isxdigit, isdigit, Bool.decide_and, Bool.decide_or, Bool.and_eq_true,
    Bool.or_eq_true, decide_eq_true_eq, UInt8.le_iff_toNat_le, UInt8.lt_iff_toNat_lt,
    ← UInt8.toNat_inj, isspace, Bool.or_eq_false_iff, Bool.and_eq_false_iff,
    decide_eq_false_iff_not, UInt8.reduceToNat] at digit ⊢
  omega

theorem upperHex_token (digits : Nat) (positive : 0 < digits) (value : Nat) :
    Token (upperHex digits value) where
  nonempty := upperHex_ne_nil positive value
  visible _ member := (isxdigit_token (isxdigit_upperHex member)).1
  ascii _ member := (isxdigit_token (isxdigit_upperHex member)).2

theorem decimal_token (value : Int) : Token (decimal value) where
  nonempty := decimal_ne_nil value
  visible _ member := decimal_not_isspace member
  ascii byte member := by
    rcases mem_decimal member with rfl | digit
    · decide
    · exact (isxdigit_token (by simp [isxdigit, digit])).2

theorem ascii_token {text : String} (nonempty : ascii text ≠ [])
    (plain : (ascii text).all fun byte => !isspace byte && decide (byte < 0x80)) :
    Token (ascii text) := by
  simp only [List.all_eq_true, Bool.and_eq_true, Bool.not_eq_true', decide_eq_true_eq] at plain
  exact ⟨nonempty, fun byte member => (plain byte member).1, fun byte member => (plain byte member).2⟩

end WebserverEthercat
