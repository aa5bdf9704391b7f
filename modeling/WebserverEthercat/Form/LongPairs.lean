import WebserverEthercat.Form.RoundTrip

/-!
# Long keys and values

`strncpy` leaves no terminator in an array that a string fills, and the
functions behind it look for one.  A pair stays inside `trimmed_key` and
`trimmed_value` exactly when both strings are shorter than the arrays.
-/

set_option autoImplicit false

namespace WebserverEthercat.Form

open CString

/-- No access leaves an array, and a key as long as its array changes no output. -/
def WithinBuffers (pair : List UInt8 × List UInt8) : Prop :=
  ∀ outputs : FestoMotorOutputs, ∃ after,
    parseKeyValueFestoMotor outputs (terminated pair.1) (terminated pair.2) = some after ∧
      (256 ≤ pair.1.length → after = outputs)

def ShortPair (pair : List UInt8 × List UInt8) : Prop :=
  pair.1.length < 256 ∧ pair.2.length < 256

/-! ## Strings that fill the array -/

theorem strncpy_full {text : List UInt8} {source : Block} (holds : Holds source text)
    (long : 256 ≤ text.length) :
    strncpy 256 (uninitialised 256) source = some ((text.take 256).map some) := by
  obtain ⟨rest, rfl⟩ := holds.cells
  have noNul : 0 ∉ text.take 256 := fun member => holds.noNul (List.mem_of_mem_take member)
  have size : (text.take 256).length = 256 := List.length_take_of_le long
  have copied := strncpy_prefix (text.take 256) noNul (uninitialised 256)
    ((text.drop 256).map some ++ some 0 :: rest) (by rw [size, length_uninitialised])
  rw [size, ← List.append_assoc, ← List.map_append, List.take_append_drop] at copied
  rw [copied, List.drop_eq_nil_of_le (by simp), List.append_nil]

theorem mem_of_load {text : List UInt8} {position : Nat} {byte : UInt8}
    (read : load (text.map some) position = some byte) : byte ∈ text := by
  rw [load, List.getElem?_map, Option.join_eq_some_iff, Option.map_eq_some_iff] at read
  obtain ⟨other, here, same⟩ := read
  cases Option.some.inj same
  exact List.mem_of_getElem? here

/-- Whether the text is blank or not, some function runs off the array. -/
theorem trimWhitespace_unterminated {text : List UInt8} (noNul : 0 ∉ text) :
    trimWhitespace (text.map some) = none := by
  cases skipped : skipSpaces (text.map some) with
  | none => simp [trimWhitespace, skipped]
  | some str =>
      cases read : load (text.map some) str with
      | none => simp [trimWhitespace, skipped, read]
      | some first =>
          have visible : first ≠ 0 := by
            intro zero
            exact noNul (zero ▸ mem_of_load read)
          have endless : strlen ((text.map some).drop str) = none := by
            rw [← List.map_drop]
            exact strlen_unterminated _ fun member => noNul (List.mem_of_mem_drop member)
          simp [trimWhitespace, skipped, read, visible, endless]

theorem trimmed_copy {text : List UInt8} {source : Block} (holds : Holds source text) :
    ∃ copy, strncpy 256 (uninitialised 256) source = some copy ∧
      (256 ≤ text.length → trimWhitespace copy = none) ∧
      (text.length < 256 → ∃ trimmed offset kept,
        trimWhitespace copy = some (trimmed, offset) ∧ Holds trimmed kept) := by
  by_cases short : text.length < 256
  · obtain ⟨copy, copied, copyHolds, -⟩ := strncpy_holds text 256 (uninitialised 256) source
      holds short (length_uninitialised 256).ge
    obtain ⟨trimmed, offset, kept, -, success, keptHolds, -⟩ := trimWhitespace_total copyHolds
    exact ⟨copy, copied, fun long => absurd short (Nat.not_lt.mpr long),
      fun _ => ⟨trimmed, offset, kept, success, keptHolds⟩⟩
  · have noNul : 0 ∉ text.take 256 := fun member => holds.noNul (List.mem_of_mem_take member)
    exact ⟨_, strncpy_full holds (Nat.not_lt.mp short), fun _ => trimWhitespace_unterminated noNul,
      fun bound => absurd bound short⟩

/-! ## Strings with a terminator in the array -/

theorem parseValueOrDefault_total {value : Block} {text : List UInt8} (holds : Holds value text)
    (defaultValue : Int32) : ∃ number, parseValueOrDefault value defaultValue = some number := by
  obtain ⟨number, converted⟩ := atoi_total holds
  cases text with
  | nil =>
      have first := load_terminator holds
      exact ⟨defaultValue, by simp [parseValueOrDefault, show load value 0 = some 0 from first]⟩
  | cons byte text =>
      have first := load_of_holds [] text holds
      have visible := ((holds_cons_iff ..).mp holds).1
      exact ⟨number, by
        simp [parseValueOrDefault, show load value 0 = some byte from first, visible, converted]⟩

theorem assignByKey_total (outputs : FestoMotorOutputs) {key value : Block}
    {keyString valueString : List UInt8} (keyHolds : Holds key keyString)
    (valueHolds : Holds value valueString) (fields : List OutputField) :
    ∃ after, assignByKey outputs key value fields = some after := by
  obtain ⟨number, parsed⟩ := parseValueOrDefault_total valueHolds 0
  induction fields with
  | nil => exact ⟨outputs, rfl⟩
  | cons field rest ih =>
      obtain ⟨after, later⟩ := ih
      have compared := strcmpEqual_of_holds _ key (keyText field) (keyText_noNul field) keyHolds
      by_cases same : keyString = keyText field
      · exact ⟨outputs.store field number.toInt, by simp [assignByKey, compared, same, parsed]⟩
      · exact ⟨after, by simp [assignByKey, compared, same, later]⟩

/-! ## One pair -/

theorem parseKeyValueFestoMotor_isSome_iff (outputs : FestoMotorOutputs) {key value : Block}
    {keyString valueString : List UInt8} (keyHolds : Holds key keyString)
    (valueHolds : Holds value valueString) :
    (∃ after, parseKeyValueFestoMotor outputs key value = some after) ↔
      keyString.length < 256 ∧ valueString.length < 256 := by
  obtain ⟨keyCopy, keyCopied, keyLong, keyShort⟩ := trimmed_copy keyHolds
  obtain ⟨valueCopy, valueCopied, valueLong, valueShort⟩ := trimmed_copy valueHolds
  constructor
  · rintro ⟨after, parsed⟩
    constructor
    · by_contra long
      simp [parseKeyValueFestoMotor, keyCopied, valueCopied, keyLong (Nat.not_lt.mp long)] at parsed
    · by_contra long
      simp [parseKeyValueFestoMotor, keyCopied, valueCopied,
        valueLong (Nat.not_lt.mp long)] at parsed
  · rintro ⟨keyFits, valueFits⟩
    obtain ⟨trimmedKey, _, _, keyTrimmed, trimmedKeyHolds⟩ := keyShort keyFits
    obtain ⟨trimmedValue, _, _, valueTrimmed, trimmedValueHolds⟩ := valueShort valueFits
    obtain ⟨after, assigned⟩ :=
      assignByKey_total outputs trimmedKeyHolds trimmedValueHolds comparedFields
    exact ⟨after, by simp [parseKeyValueFestoMotor, keyCopied, valueCopied, keyTrimmed,
      valueTrimmed, assigned]⟩

theorem withinBuffers_iff {pair : List UInt8 × List UInt8} (keyNoNul : 0 ∉ pair.1)
    (valueNoNul : 0 ∉ pair.2) : WithinBuffers pair ↔ ShortPair pair := by
  have inside (outputs : FestoMotorOutputs) := parseKeyValueFestoMotor_isSome_iff outputs
    (holds_terminated keyNoNul) (holds_terminated valueNoNul)
  constructor
  · intro within
    obtain ⟨after, parsed, -⟩ := within .zero
    exact (inside .zero).mp ⟨after, parsed⟩
  · intro short outputs
    obtain ⟨after, parsed⟩ := (inside outputs).mpr short
    exact ⟨after, parsed, fun long => absurd short.1 (Nat.not_lt.mpr long)⟩

/-! ## The pairs of a body -/

theorem zero_not_mem_plusToSpace {text : List UInt8} (noNul : 0 ∉ text) :
    0 ∉ plusToSpace text := by
  intro member
  obtain ⟨byte, here, same⟩ := List.mem_map.mp member
  split at same
  · cases same
  · exact noNul (same ▸ here)

theorem scanPairs_noNul (body : List UInt8) (noNul : 0 ∉ body) :
    ∀ pair ∈ scanPairs body, 0 ∉ pair.1 ∧ 0 ∉ pair.2 := by
  induction body using scan_induction with
  | absent text missing => simp [scanPairs_absent missing]
  | last key value keyEnds valueEnds =>
      simp only [List.mem_append, List.mem_cons, not_or] at noNul
      rw [scanPairs_last keyEnds valueEnds]
      intro pair member
      rw [List.mem_singleton.mp member]
      exact ⟨zero_not_mem_plusToSpace noNul.1, noNul.2.2⟩
  | more key value rest keyEnds valueEnds ih =>
      simp only [List.mem_append, List.mem_cons, not_or] at noNul
      rw [scanPairs_cons keyEnds valueEnds]
      intro pair member
      rcases List.mem_cons.mp member with rfl | later
      · exact ⟨zero_not_mem_plusToSpace noNul.1, noNul.2.2.1⟩
      · exact ih noNul.2.2.2.2 pair later

/-- A fold whose steps succeed or fail by their item alone. -/
theorem foldlM_isSome_iff {State Item : Type} {step : State → Item → Option State}
    {Good : Item → Prop} (items : List Item)
    (decided : ∀ item ∈ items, ∀ state, (step state item).isSome ↔ Good item) :
    ∀ state, (items.foldlM step state).isSome ↔ ∀ item ∈ items, Good item := by
  induction items with
  | nil => intro state; simp
  | cons item items ih =>
      intro state
      have here := decided item List.mem_cons_self state
      have later := ih fun other member => decided other (List.mem_cons_of_mem item member)
      rw [List.foldlM_cons, List.forall_mem_cons, ← here]
      cases taken : step state item with
      | none => simp
      | some after => simpa using later after

theorem parsePostData_isSome_iff {body : List UInt8} {postData : Block}
    (holds : Holds postData body) (outputs : FestoMotorOutputs) :
    (∃ after, parsePostData parseKeyValueFestoMotor true postData outputs = some after) ↔
      ∀ pair ∈ scanPairs body, ShortPair pair := by
  have noNul := scanPairs_noNul body holds.noNul
  rw [parsePostData_eq_scanPairs parseKeyValueFestoMotor_reads true holds, if_pos rfl,
    ← Option.isSome_iff_exists]
  apply foldlM_isSome_iff
  intro pair member state
  rw [Option.isSome_iff_exists]
  exact parseKeyValueFestoMotor_isSome_iff state (holds_terminated (noNul pair member).1)
    (holds_terminated (noNul pair member).2)

theorem pairs_withinBuffers_iff {body : List UInt8} (noNul : 0 ∉ body) :
    (∀ pair ∈ scanPairs body, WithinBuffers pair) ↔ ∀ pair ∈ scanPairs body, ShortPair pair :=
  forall₂_congr fun pair member =>
    withinBuffers_iff (scanPairs_noNul body noNul pair member).1
      (scanPairs_noNul body noNul pair member).2

/-- The accesses stay inside the arrays, in each pair and in the whole parse, exactly when no
key and no value is as long as its array. -/
theorem long_pairs_handled_iff {body : List UInt8} {postData : Block}
    (holds : Holds postData body) :
    ((∀ pair ∈ scanPairs body, WithinBuffers pair) ↔ ∀ pair ∈ scanPairs body, ShortPair pair) ∧
      ∀ outputs, (∃ after, parsePostData parseKeyValueFestoMotor true postData outputs =
        some after) ↔ ∀ pair ∈ scanPairs body, ShortPair pair :=
  ⟨pairs_withinBuffers_iff holds.noNul, parsePostData_isSome_iff holds⟩

/-- A key of so many bytes. -/
def keyOf (length : Nat) : List UInt8 := List.replicate length 97

def bodyWithKey (length : Nat) : List UInt8 := keyOf length ++ equalsSign :: ascii "1"

theorem keyOf_noNul (length : Nat) : 0 ∉ keyOf length := by
  intro member
  exact absurd (List.eq_of_mem_replicate member) (by decide)

theorem bodyWithKey_noNul (length : Nat) : 0 ∉ bodyWithKey length := by
  rw [bodyWithKey, List.mem_append, not_or]
  exact ⟨keyOf_noNul length, by decide⟩

theorem shortPair_bodyWithKey_iff (length : Nat) :
    (∀ pair ∈ scanPairs (bodyWithKey length), ShortPair pair) ↔ length < 256 := by
  have keyEnds : equalsSign ∉ keyOf length := by
    intro member
    exact absurd (List.eq_of_mem_replicate member) (by decide)
  have kept : plusToSpace (keyOf length) = keyOf length := List.map_replicate
  rw [bodyWithKey, scanPairs_last keyEnds (by decide), kept, List.forall_mem_singleton, ShortPair,
    keyOf, List.length_replicate]
  exact and_iff_left (show (ascii "1").length < 256 by decide)

theorem long_pairs_handled_iff_longest :
    (∀ pair ∈ scanPairs (bodyWithKey 255), WithinBuffers pair) ∧
      ∃ after, parsePostData parseKeyValueFestoMotor true (terminated (bodyWithKey 255)) .zero =
        some after := by
  obtain ⟨pairs, parse⟩ := long_pairs_handled_iff (holds_terminated (bodyWithKey_noNul 255))
  have short := (shortPair_bodyWithKey_iff 255).mpr (by omega)
  exact ⟨pairs.mpr short, (parse .zero).mpr short⟩

/-- `trim_whitespace` runs off the array that a key of 256 bytes fills. -/
theorem overlong_key_leaves_buffer :
    parseKeyValueFestoMotor .zero (terminated (keyOf 256)) (terminated (ascii "1")) = none ∧
      parsePostData parseKeyValueFestoMotor true (terminated (bodyWithKey 256)) .zero = none ∧
      ¬ ∀ pair ∈ scanPairs (bodyWithKey 256), WithinBuffers pair := by
  have long : ¬ ∀ pair ∈ scanPairs (bodyWithKey 256), ShortPair pair := by
    rw [shortPair_bodyWithKey_iff]
    omega
  refine ⟨?_, ?_, ?_⟩
  · have inside := parseKeyValueFestoMotor_isSome_iff .zero
      (holds_terminated (keyOf_noNul 256)) (@holds_terminated (ascii "1") (by decide))
    rw [← Option.not_isSome_iff_eq_none, Option.isSome_iff_exists, inside, keyOf,
      List.length_replicate]
    omega
  · rw [← Option.not_isSome_iff_eq_none, Option.isSome_iff_exists,
      parsePostData_isSome_iff (holds_terminated (bodyWithKey_noNul 256))]
    exact long
  · rw [pairs_withinBuffers_iff (bodyWithKey_noNul 256)]
    exact long

end WebserverEthercat.Form
