import Mathlib.Data.List.DropRight
import WebserverEthercat.Festo
import WebserverEthercat.Lib.CString

/-!
# One key and its value

`trim_whitespace`, `parse_value_or_default` and `parse_key_value_festo_motor`
on memory blocks.  The callers of `trim_whitespace` keep their own pointer, so
only its cut at the end takes effect.
-/

set_option autoImplicit false

namespace WebserverEthercat.Form

open CString

/-- The offset of the last byte that is no space, not before `str`. -/
def trimEnd (block : Block) (str : Nat) : Nat → Option Nat
  | 0 => some 0
  | last + 1 =>
      if str < last + 1 then do
        let byte ← load block (last + 1)
        if isspace byte then trimEnd block str last else some (last + 1)
      else some (last + 1)

/-- The block after the call and the offset of the returned pointer. -/
def trimWhitespace (block : Block) : Option (Block × Nat) := do
  let str ← skipSpaces block
  let first ← load block str
  if first = 0 then some (block, str)
  else
    let length ← strlen (block.drop str)
    let last ← trimEnd block str (str + length - 1)
    let trimmed ← store block (last + 1) 0
    some (trimmed, str)

def parseValueOrDefault (value : Block) (defaultValue : Int32) : Option Int32 := do
  let first ← load value 0
  if first ≠ 0 then atoi value else some defaultValue

def keyText : OutputField → List UInt8
  | .controlWord => ascii "Controlword_0x6040"
  | .modesOfOperation => ascii "Modes of operation_0x6060"
  | .targetPosition => ascii "Target position_0x607A"
  | .profileVelocity => ascii "Profile velocity_0x6081"
  | .targetVelocity => ascii "Target velocity_0x60FF"
  | .targetTorque => ascii "Target torque_0x6071"
  | .velocityOffset => ascii "Velocity offset_0x60B1"
  | .torqueOffset => ascii "Torque offset_0x60B2"

/-- The comparisons in the order in which they are made. -/
def comparedFields : List OutputField :=
  [.controlWord, .modesOfOperation, .targetPosition, .profileVelocity, .targetVelocity,
    .targetTorque, .velocityOffset, .torqueOffset]

def assignByKey (outputs : FestoMotorOutputs) (key value : Block) :
    List OutputField → Option FestoMotorOutputs
  | [] => some outputs
  | field :: rest => do
      if ← strcmpEqual key (keyText field) then
        let number ← parseValueOrDefault value 0
        some (outputs.store field number.toInt)
      else assignByKey outputs key value rest

/-- Key and value are arrays of the caller and never null. -/
def parseKeyValueFestoMotor (outputs : FestoMotorOutputs) (key value : Block) :
    Option FestoMotorOutputs := do
  let trimmedKey ← strncpy 256 (uninitialised 256) key
  let trimmedValue ← strncpy 256 (uninitialised 256) value
  let (trimmedKey, _) ← trimWhitespace trimmedKey
  let (trimmedValue, _) ← trimWhitespace trimmedValue
  assignByKey outputs trimmedKey trimmedValue comparedFields

/-! ## Trimming -/

theorem trimEnd_at (block : Block) (str last : Nat) (start : str ≤ last)
    (kept : str < last → ∃ byte, load block last = some byte ∧ isspace byte = false) :
    ∀ count, (∀ position, last < position → position ≤ last + count →
        ∃ byte, load block position = some byte ∧ isspace byte = true) →
      trimEnd block str (last + count) = some last := by
  intro count
  induction count with
  | zero =>
      intro _
      cases last with
      | zero => rfl
      | succ last =>
          by_cases inside : str < last + 1
          · obtain ⟨byte, read, visible⟩ := kept inside
            simp [trimEnd, inside, read, visible]
          · simp [trimEnd, inside]
  | succ count ih =>
      intro blank
      obtain ⟨byte, read, space⟩ := blank (last + count + 1) (by omega) (by omega)
      have earlier := ih fun position after bound => blank position after (by omega)
      have inside : str < last + count + 1 := by omega
      rw [← Nat.add_assoc]
      simp [trimEnd, inside, read, space, earlier]

theorem trimWhitespace_blank {block : Block} {text : List UInt8}
    (blank : ∀ byte ∈ text, isspace byte = true) (holds : Holds block text) :
    trimWhitespace block = some (block, text.length) := by
  have skipped := skipSpaces_of_holds text blank [] (by simp) block (by simpa using holds)
  simp [trimWhitespace, skipped, load_terminator holds]

/-- A text that neither starts nor ends with a space. -/
structure Solid (text : List UInt8) : Prop where
  nonempty : text ≠ []
  starts : ∀ byte rest, text = byte :: rest → isspace byte = false
  ends : ∀ front byte, text = front ++ [byte] → isspace byte = false

theorem Solid.of_visible {text : List UInt8} (nonempty : text ≠ [])
    (visible : ∀ byte ∈ text, isspace byte = false) : Solid text where
  nonempty := nonempty
  starts byte rest same := visible byte (by simp [same])
  ends front byte same := visible byte (by simp [same])

theorem exists_solid {text : List UInt8} (visible : ¬ ∀ byte ∈ text, isspace byte = true) :
    ∃ lead core trail, text = lead ++ core ++ trail ∧ (∀ byte ∈ lead, isspace byte = true) ∧
      Solid core ∧ ∀ byte ∈ trail, isspace byte = true := by
  obtain ⟨rest, restIs⟩ : ∃ rest, text.dropWhile isspace = rest := ⟨_, rfl⟩
  have restNonempty : rest ≠ [] := by
    intro empty
    rw [empty] at restIs
    exact visible (List.dropWhile_eq_nil_iff.mp restIs)
  obtain ⟨head, tail, rfl⟩ := List.exists_cons_of_ne_nil restNonempty
  have headVisible : isspace head = false := by
    have first := List.head?_dropWhile_not isspace text
    simpa [restIs] using first
  have joined : (head :: tail).rdropWhile isspace ++ (head :: tail).rtakeWhile isspace =
      head :: tail := List.rdropWhile_append_rtakeWhile
  have coreNonempty : (head :: tail).rdropWhile isspace ≠ [] := by
    intro empty
    have blank := List.rdropWhile_eq_nil_iff.mp empty head List.mem_cons_self
    simp [headVisible] at blank
  refine ⟨text.takeWhile isspace, _, (head :: tail).rtakeWhile isspace, ?_,
    fun _ => List.mem_takeWhile_imp,
    ⟨coreNonempty, ?_, ?_⟩, fun _ => List.mem_rtakeWhile_imp⟩
  · rw [List.append_assoc, joined, ← restIs, List.takeWhile_append_dropWhile]
  · intro byte rest same
    rw [same, List.cons_append] at joined
    rw [(List.cons.inj joined).1]
    exact headVisible
  · intro front byte same
    have last := List.rdropWhile_last_not isspace (head :: tail) coreNonempty
    simpa [same] using last

/-- The trailing spaces are cut off in place, the leading ones are skipped by
the returned pointer. -/
theorem trimWhitespace_of_holds {block : Block} (lead : List UInt8) {core : List UInt8}
    (trail : List UInt8) (leadBlank : ∀ byte ∈ lead, isspace byte = true) (solid : Solid core)
    (trailBlank : ∀ byte ∈ trail, isspace byte = true)
    (holds : Holds block (lead ++ core ++ trail)) :
    ∃ trimmed, trimWhitespace block = some (trimmed, lead.length) ∧
      Holds trimmed (lead ++ core) := by
  have behindLead : Holds block (lead ++ (core ++ trail)) := by
    rw [← List.append_assoc]
    exact holds
  obtain ⟨head, tail, headIs⟩ := List.exists_cons_of_ne_nil solid.nonempty
  obtain ⟨front, last, lastIs⟩ : ∃ front last, core = front ++ [last] :=
    ⟨_, _, (List.dropLast_concat_getLast solid.nonempty).symm⟩
  have coreLength : core.length = front.length + 1 := by simp [lastIs]
  have skipped : skipSpaces block = some lead.length := by
    apply skipSpaces_of_holds lead leadBlank (core ++ trail) _ block behindLead
    intro byte rest same
    rw [headIs, List.cons_append] at same
    rw [← (List.cons.inj same).1, solid.starts head tail headIs]
    simp
  have first : load block lead.length = some head := by
    apply load_of_holds lead (tail ++ trail)
    rw [headIs] at behindLead
    exact behindLead
  have visible : head ≠ 0 := by
    intro zero
    have noNul := holds.noNul
    rw [headIs, zero] at noNul
    simp at noNul
  have length : strlen (block.drop lead.length) = some (core.length + trail.length) := by
    rw [← List.length_append]
    exact strlen_of_holds _ _ behindLead.drop
  -- the walk back from the end stops at the last byte of `core`
  have stopped : trimEnd block lead.length (lead.length + front.length + trail.length) =
      some (lead.length + front.length) := by
    apply trimEnd_at block lead.length _ (by omega)
    · intro _
      have position : lead.length + front.length = (lead ++ front).length := by simp
      rw [position]
      refine ⟨last, load_of_holds (lead ++ front) trail ?_, solid.ends front last lastIs⟩
      simpa [lastIs] using holds
    · intro position after bound
      have whole : (lead ++ core ++ trail).length =
          lead.length + front.length + 1 + trail.length := by
        simp only [List.length_append, coreLength]
        omega
      refine ⟨_, load_getElem holds position (by omega), trailBlank _ ?_⟩
      have behind : (lead ++ core).length ≤ position := by
        simp only [List.length_append, coreLength]
        omega
      rw [List.getElem_append_right behind]
      exact List.getElem_mem _
  obtain ⟨cut, stored, cutHolds, -⟩ := store_terminator (lead ++ core) trail holds
  refine ⟨cut, ?_, cutHolds⟩
  have lastPosition : lead.length + (core.length + trail.length) - 1 =
      lead.length + front.length + trail.length := by omega
  have cutPosition : (lead ++ core).length = lead.length + front.length + 1 := by
    simp only [List.length_append, coreLength]
    omega
  rw [cutPosition] at stored
  simp [trimWhitespace, skipped, first, visible, length, lastPosition, stopped, stored]

theorem trimWhitespace_solid {block : Block} {text : List UInt8} (solid : Solid text)
    (holds : Holds block text) :
    ∃ trimmed, trimWhitespace block = some (trimmed, 0) ∧ Holds trimmed text := by
  have whole : Holds block ([] ++ text ++ []) := by simpa using holds
  exact trimWhitespace_of_holds [] [] (by simp) solid (by simp) whole

/-- On every string the call succeeds and cuts off nothing but spaces. -/
theorem trimWhitespace_total {block : Block} {text : List UInt8} (holds : Holds block text) :
    ∃ trimmed offset kept trail, trimWhitespace block = some (trimmed, offset) ∧
      Holds trimmed kept ∧ text = kept ++ trail ∧ ∀ byte ∈ trail, isspace byte = true := by
  by_cases blank : ∀ byte ∈ text, isspace byte = true
  · exact ⟨block, text.length, text, [], trimWhitespace_blank blank holds, holds, by simp,
      by simp⟩
  · obtain ⟨lead, core, trail, rfl, leadBlank, solid, trailBlank⟩ := exists_solid blank
    obtain ⟨trimmed, success, trimmedHolds⟩ :=
      trimWhitespace_of_holds lead trail leadBlank solid trailBlank holds
    exact ⟨trimmed, lead.length, lead ++ core, trail, success, trimmedHolds, rfl, trailBlank⟩

/-! ## Dispatch -/

theorem keyText_noNul (field : OutputField) : 0 ∉ keyText field := by
  cases field <;> decide

theorem keyText_injective (first second : OutputField) (same : keyText first = keyText second) :
    first = second := by
  revert same
  cases first <;> cases second <;> decide

theorem mem_comparedFields (field : OutputField) : field ∈ comparedFields := by
  cases field <;> decide

theorem assignByKey_of_mem (outputs : FestoMotorOutputs) {key value : Block}
    {field : OutputField} (keyHolds : Holds key (keyText field)) {number : Int32}
    (parsed : parseValueOrDefault value 0 = some number) (fields : List OutputField)
    (member : field ∈ fields) :
    assignByKey outputs key value fields = some (outputs.store field number.toInt) := by
  induction fields with
  | nil => cases member
  | cons head rest ih =>
      have compared := strcmpEqual_of_holds _ key (keyText head) (keyText_noNul head) keyHolds
      by_cases same : field = head
      · subst same
        simp [assignByKey, compared, parsed]
      · have different : keyText field ≠ keyText head := fun texts =>
          same (keyText_injective field head texts)
        have later := ih ((List.mem_cons.mp member).resolve_left same)
        simp [assignByKey, compared, different, later]

theorem parseKeyValueFestoMotor_congr (outputs : FestoMotorOutputs) {key value : Block}
    {keyString valueString : List UInt8} (keyHolds : Holds key keyString)
    (valueHolds : Holds value valueString) :
    parseKeyValueFestoMotor outputs key value =
      parseKeyValueFestoMotor outputs (terminated keyString) (terminated valueString) := by
  have keys := strncpy_congr keyString 256 (uninitialised 256) key (terminated keyString)
    keyHolds (holds_terminated keyHolds.noNul)
  have values := strncpy_congr valueString 256 (uninitialised 256) value (terminated valueString)
    valueHolds (holds_terminated valueHolds.noNul)
  simp only [parseKeyValueFestoMotor, keys, values]

end WebserverEthercat.Form
