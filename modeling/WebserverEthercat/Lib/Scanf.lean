import WebserverEthercat.Lib.Printf

/-!
# `sscanf`

The directives of a format one after another, as in ISO C: white space, literal
bytes, `%x`, `%s` and `%[..]`, each conversion with or without an assignment.  A
directive fails for want of input or because the input does not match, and the
call returns the number of assigned items, or `EOF` when the input ends before
the first conversion.
-/

set_option autoImplicit false

namespace CString

inductive ScanFailure where
  | input
  | matching
deriving DecidableEq, Repr

inductive ScanItem where
  | number (value : UInt32)
  | text (bytes : List UInt8)
deriving DecidableEq, Repr

/-- `assign` is false for a conversion with `*`. -/
inductive Directive where
  | space
  | literal (byte : UInt8)
  | hex (assign : Bool)
  | word (assign : Bool)
  | scanset (assign : Bool) (width : Option Nat) (member : UInt8 → Bool)

def isxdigit (byte : UInt8) : Bool :=
  isdigit byte ∨ 65 ≤ byte ∧ byte ≤ 70 ∨ 97 ≤ byte ∧ byte ≤ 102

def xdigitValue (byte : UInt8) : Nat :=
  if isdigit byte then byte.toNat - 48
  else if byte ≤ 70 then byte.toNat - 55
  else byte.toNat - 87

def xdigitsValue (digits : List UInt8) : Nat :=
  digits.foldl (fun value digit => 16 * value + xdigitValue digit) 0

/-- At least one digit, with or without `0x` before them. -/
def scanDigits (input : List UInt8) : Option (Nat × List UInt8) :=
  let body := match input with
    | 48 :: 120 :: rest | 48 :: 88 :: rest => rest
    | _ => input
  let digits := body.takeWhile isxdigit
  if digits = [] then none else some (xdigitsValue digits, body.dropWhile isxdigit)

/-- A number outside `unsigned int` is reduced modulo 2^32, where ISO C leaves the result open. -/
def scanHex (input : List UInt8) : Except ScanFailure (UInt32 × List UInt8) :=
  match input with
  | [] => .error .input
  | 45 :: rest =>
      match scanDigits rest with
      | some (value, rest) => .ok (UInt32.ofInt (-value), rest)
      | none => .error .matching
  | 43 :: rest =>
      match scanDigits rest with
      | some (value, rest) => .ok (UInt32.ofNat value, rest)
      | none => .error .matching
  | _ =>
      match scanDigits input with
      | some (value, rest) => .ok (UInt32.ofNat value, rest)
      | none => .error .matching

namespace Directive

def converts : Directive → Bool
  | space | literal _ => false
  | hex _ | word _ | scanset .. => true

def assigned (assign : Bool) (item : ScanItem) : Option ScanItem :=
  if assign then some item else none

/-- One directive on the rest of the input. -/
def scan : Directive → List UInt8 → Except ScanFailure (Option ScanItem × List UInt8)
  | space, input => .ok (none, input.dropWhile isspace)
  | literal _, [] => .error .input
  | literal byte, next :: rest => if next = byte then .ok (none, rest) else .error .matching
  | hex assign, input =>
      (scanHex (input.dropWhile isspace)).map fun (value, rest) =>
        (assigned assign (.number value), rest)
  | word assign, input =>
      let start := input.dropWhile isspace
      if start = [] then .error .input
      else .ok (assigned assign (.text (start.takeWhile fun byte => !isspace byte)),
        start.dropWhile fun byte => !isspace byte)
  | scanset assign width member, input =>
      let text := (input.takeWhile member).take (width.getD input.length)
      if input = [] then .error .input
      else if text = [] then .error .matching
      else .ok (assigned assign (.text text), input.drop text.length)

end Directive

/-- The value returned and what was assigned, in order. -/
structure Scanned where
  result : Int
  items : List ScanItem
deriving DecidableEq, Repr

def scanFrom : List Directive → List UInt8 → Bool → List ScanItem → Scanned
  | [], _, _, items => ⟨items.length, items⟩
  | directive :: directives, input, converted, items =>
      match directive.scan input with
      | .ok (item, rest) =>
          scanFrom directives rest (converted || directive.converts) (items ++ item.toList)
      | .error .input => ⟨if converted then items.length else -1, items⟩
      | .error .matching => ⟨items.length, items⟩

def sscanf (input : List UInt8) (format : List Directive) : Scanned := scanFrom format input false []

/-! ## Directives that succeed -/

theorem scanFrom_ok {directive : Directive} {input rest : List UInt8} {item : Option ScanItem}
    (scans : directive.scan input = .ok (item, rest)) (directives : List Directive)
    (converted : Bool) (items : List ScanItem) :
    scanFrom (directive :: directives) input converted items =
      scanFrom directives rest (converted || directive.converts) (items ++ item.toList) := by
  rw [scanFrom, scans]

theorem scanFrom_input {directive : Directive} {input : List UInt8}
    (fails : directive.scan input = .error .input) (directives : List Directive)
    (items : List ScanItem) :
    scanFrom (directive :: directives) input true items = ⟨items.length, items⟩ := by
  rw [scanFrom, fails]
  rfl

/-- The text is empty or starts with a byte outside `class`. -/
def StopsAt (member : UInt8 → Bool) (text : List UInt8) : Prop :=
  ∀ byte ∈ text.head?, member byte = false

theorem StopsAt.cons {member : UInt8 → Bool} {byte : UInt8} (outside : member byte = false)
    (text : List UInt8) : StopsAt member (byte :: text) := by
  simpa [StopsAt] using outside

theorem takeWhile_stops {member : UInt8 → Bool} {front rest : List UInt8}
    (all : ∀ byte ∈ front, member byte = true) (stops : StopsAt member rest) :
    (front ++ rest).takeWhile member = front ∧ (front ++ rest).dropWhile member = rest := by
  rw [List.takeWhile_append_of_pos all, List.dropWhile_append_of_pos all]
  cases rest with
  | nil => simp
  | cons byte rest => simp [stops byte rfl]

namespace Directive

theorem scan_space {blanks text : List UInt8} (blank : ∀ byte ∈ blanks, isspace byte = true)
    (stops : StopsAt isspace text) : space.scan (blanks ++ text) = .ok (none, text) := by
  rw [scan, (takeWhile_stops blank stops).2]

theorem scan_noSpace {text : List UInt8} (stops : StopsAt isspace text) :
    space.scan text = .ok (none, text) :=
  @scan_space [] text (by simp) stops

theorem scan_oneSpace {text : List UInt8} (stops : StopsAt isspace text) :
    space.scan (32 :: text) = .ok (none, text) :=
  @scan_space [32] text (List.all_eq_true.mp rfl) stops

theorem scan_literal (byte : UInt8) (rest : List UInt8) :
    (literal byte).scan (byte :: rest) = .ok (none, rest) := by
  simp [scan]

theorem scan_word (assign : Bool) {word rest : List UInt8} (some : word ≠ [])
    (visible : ∀ byte ∈ word, isspace byte = false)
    (stops : StopsAt (fun byte => !isspace byte) rest) :
    (Directive.word assign).scan (word ++ rest) = .ok (assigned assign (.text word), rest) := by
  have start : (word ++ rest).dropWhile isspace = word ++ rest := by
    obtain ⟨byte, text, rfl⟩ := List.exists_cons_of_ne_nil some
    simp [visible byte]
  obtain ⟨taken, dropped⟩ := @takeWhile_stops (fun byte => !isspace byte) word _
    (fun byte member => by simp [visible byte member]) stops
  simp [scan, start, some, taken, dropped]

theorem scan_scanset (assign : Bool) {width : Option Nat} {member : UInt8 → Bool}
    {text rest : List UInt8} (some : text ≠ []) (fits : ∀ limit ∈ width, text.length ≤ limit)
    (all : ∀ byte ∈ text, member byte = true) (stops : StopsAt member rest) :
    (scanset assign width member).scan (text ++ rest) =
      .ok (assigned assign (.text text), rest) := by
  have whole : text.take (width.getD (text ++ rest).length) = text := by
    apply List.take_of_length_le
    cases width with
    | none => simp
    | some limit => exact fits limit rfl
  rw [scan, (takeWhile_stops all stops).1, whole]
  simp [some]

end Directive

/-! ## Reading back `%N.NX` -/

theorem upperHexByte_digit {digit : Nat} (small : digit < 16) :
    isxdigit (upperHexByte digit) = true ∧ xdigitValue (upperHexByte digit) = digit := by
  revert digit
  decide

theorem isxdigit_upperHex {digits value : Nat} {byte : UInt8}
    (member : byte ∈ upperHex digits value) : isxdigit byte = true := by
  obtain ⟨digit, here, rfl⟩ := List.mem_map.mp member
  exact (upperHexByte_digit (hexDigits_lt here)).1

theorem upperHex_ne_nil {digits : Nat} (positive : 0 < digits) (value : Nat) :
    upperHex digits value ≠ [] := by
  intro empty
  have length := length_hexDigits digits value
  rw [List.map_eq_nil_iff.mp empty] at length
  simp at length
  omega

theorem xdigitsValue_map (digits : List Nat) (small : ∀ digit ∈ digits, digit < 16) :
    xdigitsValue (digits.map upperHexByte) =
      digits.foldl (fun sum digit => 16 * sum + digit) 0 := by
  rw [xdigitsValue, List.foldl_map]
  apply List.foldl_ext
  intro sum digit member
  rw [(upperHexByte_digit (small digit member)).2]

theorem xdigitsValue_upperHex (digits value : Nat) :
    xdigitsValue (upperHex digits value) = value := by
  rw [upperHex, xdigitsValue_map _ fun _ => hexDigits_lt, hexDigits_value]

theorem Directive.scan_hex (assign : Bool) {digits value : Nat} (positive : 0 < digits)
    {rest : List UInt8} (stops : StopsAt isxdigit rest) :
    (hex assign).scan (48 :: 120 :: (upperHex digits value ++ rest)) =
      .ok (assigned assign (.number (UInt32.ofNat value)), rest) := by
  obtain ⟨taken, dropped⟩ := takeWhile_stops
    (fun _ => @isxdigit_upperHex digits value _) stops
  have digitsScanned : scanDigits (48 :: 120 :: (upperHex digits value ++ rest)) =
      some (value, rest) := by
    simp [scanDigits, taken, dropped, upperHex_ne_nil positive, xdigitsValue_upperHex]
  have start : (48 :: 120 :: (upperHex digits value ++ rest)).dropWhile isspace =
      48 :: 120 :: (upperHex digits value ++ rest) := rfl
  simp [scan, start, scanHex, digitsScanned, Except.map]

end CString
