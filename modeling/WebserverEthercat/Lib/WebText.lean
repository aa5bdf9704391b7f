import Mathlib.Tactic.Common

/-!
# Text in a web page

The bytes of a response become characters by the UTF-8 decoder, which puts
U+FFFD for every malformed sequence.  `trim` and `split(/\s+/)` go by the white
space of ECMAScript.  An ASCII byte stands for itself wherever it comes, and an
ASCII character for its byte.
-/

set_option autoImplicit false

namespace WebText

/-- A sequence that has begun: the bytes still needed, the bits so far and the range of the
next byte. -/
structure Begun where
  needed : Nat
  bits : Nat
  lower : UInt8
  upper : UInt8
deriving DecidableEq, Repr

def replacement : Nat := 0xfffd

/-- The byte that a sequence starts with: the characters it completes, and the sequence it
begins. -/
def decodeStart (byte : UInt8) : List Nat × Option Begun :=
  if byte < 0x80 then ([byte.toNat], none)
  else if 0xc2 ≤ byte ∧ byte ≤ 0xdf then ([], some ⟨1, byte.toNat - 0xc0, 0x80, 0xbf⟩)
  else if 0xe0 ≤ byte ∧ byte ≤ 0xef then
    ([], some ⟨2, byte.toNat - 0xe0, if byte = 0xe0 then 0xa0 else 0x80,
      if byte = 0xed then 0x9f else 0xbf⟩)
  else if 0xf0 ≤ byte ∧ byte ≤ 0xf4 then
    ([], some ⟨3, byte.toNat - 0xf0, if byte = 0xf0 then 0x90 else 0x80,
      if byte = 0xf4 then 0x8f else 0xbf⟩)
  else ([replacement], none)

def decodeByte : Option Begun → UInt8 → List Nat × Option Begun
  | none, byte => decodeStart byte
  | some begun, byte =>
      if begun.lower ≤ byte ∧ byte ≤ begun.upper then
        let bits := 64 * begun.bits + (byte.toNat - 0x80)
        if begun.needed = 1 then ([bits], none)
        else ([], some ⟨begun.needed - 1, bits, 0x80, 0xbf⟩)
      else (replacement :: (decodeStart byte).1, (decodeStart byte).2)

def decodeFrom : Option Begun → List UInt8 → List Nat
  | none, [] => []
  | some _, [] => [replacement]
  | begun, byte :: bytes => (decodeByte begun byte).1 ++ decodeFrom (decodeByte begun byte).2 bytes

def utf8Decode (bytes : List UInt8) : List Nat := decodeFrom none bytes

/-- `\s` -/
def isWhiteSpace (character : Nat) : Bool :=
  9 ≤ character ∧ character ≤ 13 ∨ character = 0x20 ∨ character = 0xa0 ∨ character = 0x1680 ∨
    0x2000 ≤ character ∧ character ≤ 0x200a ∨ character = 0x2028 ∨ character = 0x2029 ∨
    character = 0x202f ∨ character = 0x205f ∨ character = 0x3000 ∨ character = 0xfeff

/-- `text.trim().split(/\s+/)` for a text that is not blank. -/
def words (text : List Nat) : List (List Nat) :=
  (text.splitOnP isWhiteSpace).filter (· ≠ [])

/-! ## ASCII -/

/-- The bytes of a sequence that has begun are none of ASCII. -/
def Proper (begun : Option Begun) : Prop := ∀ sequence ∈ begun, 0x80 ≤ sequence.lower

theorem decodeStart_proper (byte : UInt8) : Proper (decodeStart byte).2 := by
  intro sequence begun
  simp only [decodeStart] at begun
  split at begun
  · cases begun
  · split at begun
    · obtain rfl := Option.mem_some.mp begun
      exact UInt8.le_refl _
    · split at begun
      · obtain rfl := Option.mem_some.mp begun
        dsimp only
        split <;> decide
      · split at begun
        · obtain rfl := Option.mem_some.mp begun
          dsimp only
          split <;> decide
        · cases begun

theorem decodeByte_proper (begun : Option Begun) (byte : UInt8) :
    Proper (decodeByte begun byte).2 := by
  cases begun with
  | none => exact decodeStart_proper byte
  | some sequence =>
      rw [decodeByte]
      split
      · intro next more
        dsimp only at more
        split at more
        · cases more
        · obtain rfl := Option.mem_some.mp more
          exact UInt8.le_refl _
      · exact decodeStart_proper byte

/-- A sequence is cut off before an ASCII byte as at the end. -/
theorem decodeFrom_ascii {byte : UInt8} (ascii : byte < 0x80) (bytes : List UInt8) :
    ∀ (front : List UInt8) (begun : Option Begun), Proper begun →
      decodeFrom begun (front ++ byte :: bytes) =
        decodeFrom begun front ++ byte.toNat :: utf8Decode bytes := by
  have start : decodeStart byte = ([byte.toNat], none) := if_pos ascii
  intro front
  induction front with
  | nil =>
      intro begun proper
      cases begun with
      | none => simp [decodeFrom, decodeByte, start, utf8Decode]
      | some sequence =>
          have low := proper sequence rfl
          have outside : ¬ sequence.lower ≤ byte := by
            rw [UInt8.le_iff_toNat_le] at low ⊢
            rw [UInt8.lt_iff_toNat_lt] at ascii
            omega
          simp [decodeFrom, decodeByte, outside, start, utf8Decode]
  | cons next front ih =>
      intro begun proper
      have later := ih (decodeByte begun next).2 (decodeByte_proper begun next)
      simp only [List.cons_append, decodeFrom, later, List.append_assoc]

theorem utf8Decode_split {byte : UInt8} (ascii : byte < 0x80) (front bytes : List UInt8) :
    utf8Decode (front ++ byte :: bytes) = utf8Decode front ++ byte.toNat :: utf8Decode bytes :=
  decodeFrom_ascii ascii bytes front none (by simp [Proper])

theorem utf8Decode_cons {byte : UInt8} (ascii : byte < 0x80) (bytes : List UInt8) :
    utf8Decode (byte :: bytes) = byte.toNat :: utf8Decode bytes :=
  utf8Decode_split ascii [] bytes

theorem utf8Decode_append {front : List UInt8} (ascii : ∀ byte ∈ front, byte < 0x80)
    (bytes : List UInt8) :
    utf8Decode (front ++ bytes) = front.map UInt8.toNat ++ utf8Decode bytes := by
  induction front with
  | nil => rfl
  | cons byte front ih =>
      rw [List.cons_append, utf8Decode_cons (ascii byte List.mem_cons_self),
        ih fun other member => ascii other (List.mem_cons_of_mem _ member)]
      rfl

/-! ## ASCII characters stand for ASCII bytes -/

/-- What a sequence that has begun comes to is none of ASCII. -/
structure High (begun : Begun) : Prop where
  lower : 0x80 ≤ begun.lower
  bits : 2 ≤ 64 * begun.bits + (begun.lower.toNat - 0x80)
  last : begun.needed = 1 → 2 ≤ begun.bits

theorem decodeStart_high {byte : UInt8} (high : 0x80 ≤ byte) :
    (∀ character ∈ (decodeStart byte).1, 0x80 ≤ character) ∧
      ∀ begun ∈ (decodeStart byte).2, High begun := by
  have notAscii : ¬ byte < 0x80 := UInt8.not_lt.mpr high
  have lowers : (0x80 : UInt8).toNat = 128 ∧ (0x90 : UInt8).toNat = 144 ∧ (0xa0 : UInt8).toNat = 160 ∧
      (0xc2 : UInt8).toNat = 194 ∧ (0xe0 : UInt8).toNat = 224 ∧ (0xf0 : UInt8).toNat = 240 := by decide
  simp only [decodeStart, if_neg notAscii]
  split
  · rename_i two
    refine ⟨by simp, fun begun here => ?_⟩
    obtain rfl := Option.mem_some.mp here
    simp only [UInt8.le_iff_toNat_le] at two
    exact ⟨UInt8.le_refl _, by dsimp only; omega, fun _ => by dsimp only; omega⟩
  · split
    · rename_i three
      refine ⟨by simp, fun begun here => ?_⟩
      obtain rfl := Option.mem_some.mp here
      simp only [UInt8.le_iff_toNat_le] at three
      constructor
      · dsimp only
        split <;> decide
      · dsimp only
        split
        · omega
        · rename_i different
          have above : byte.toNat ≠ 224 := fun same => different (UInt8.toNat_inj.mp same)
          omega
      · simp
    · split
      · rename_i four
        refine ⟨by simp, fun begun here => ?_⟩
        obtain rfl := Option.mem_some.mp here
        simp only [UInt8.le_iff_toNat_le] at four
        constructor
        · dsimp only
          split <;> decide
        · dsimp only
          split
          · omega
          · rename_i different
            have above : byte.toNat ≠ 240 := fun same => different (UInt8.toNat_inj.mp same)
            omega
        · simp
      · simp [replacement]

/-- A byte above ASCII gives no ASCII character, now or later. -/
theorem decodeByte_high {state : Option Begun} (sequence : ∀ begun ∈ state, High begun)
    {byte : UInt8} (high : 0x80 ≤ byte) :
    (∀ character ∈ (decodeByte state byte).1, 0x80 ≤ character) ∧
      ∀ next ∈ (decodeByte state byte).2, High next := by
  have start := decodeStart_high high
  cases state with
  | none => exact start
  | some begun =>
      have here := sequence begun rfl
      have bits := here.bits
      rw [decodeByte]
      split
      · rename_i within
        have low := UInt8.le_iff_toNat_le.mp within.1
        dsimp only
        split
        · rename_i last
          have two := here.last last
          refine ⟨fun character member => ?_, by simp⟩
          rw [List.mem_singleton.mp member]
          omega
        · refine ⟨by simp, fun next more => ?_⟩
          obtain rfl := Option.mem_some.mp more
          exact ⟨UInt8.le_refl _, by dsimp only; omega, fun _ => by dsimp only; omega⟩
      · refine ⟨fun character member => ?_, start.2⟩
        rcases List.mem_cons.mp member with rfl | later
        · decide
        · exact start.1 character later

theorem decodeFrom_nil_high (begun : Option Begun) :
    ∀ character ∈ decodeFrom begun [], 0x80 ≤ character := by
  cases begun with
  | none => simp [decodeFrom]
  | some begun => simp [decodeFrom, replacement]

/-- An ASCII character of the text stands for a byte, and the text is cut there. -/
theorem decodeFrom_unsplit {byte : UInt8} (ascii : byte < 0x80) (behind : List Nat) :
    ∀ (bytes : List UInt8) (begun : Option Begun) (before : List Nat),
      (∀ sequence ∈ begun, High sequence) →
      decodeFrom begun bytes = before ++ byte.toNat :: behind →
      ∃ front rest, bytes = front ++ byte :: rest ∧ before = decodeFrom begun front ∧
        behind = utf8Decode rest := by
  have small : byte.toNat < 0x80 := UInt8.lt_iff_toNat_lt.mp ascii
  have foreign {outputs later : List Nat} (high : ∀ character ∈ outputs, 0x80 ≤ character)
      {before : List Nat} (same : outputs ++ later = before ++ byte.toNat :: behind) :
      ∃ front, before = outputs ++ front ∧ later = front ++ byte.toNat :: behind := by
    rcases List.append_eq_append_iff.mp same with ⟨front, split, rest⟩ | ⟨front, split, rest⟩
    · exact ⟨front, split, rest⟩
    · cases front with
      | nil => exact ⟨[], by simpa using split.symm, by simpa using rest.symm⟩
      | cons character front =>
          have here := high character (by simp [split])
          rw [← (List.cons.inj rest).1] at here
          omega
  intro bytes
  induction bytes with
  | nil =>
      intro begun before sequence decoded
      have here := decodeFrom_nil_high begun byte.toNat (by simp [decoded])
      omega
  | cons next bytes ih =>
      intro begun before sequence decoded
      by_cases low : next < 0x80
      · have proper : Proper begun := fun begun here => (sequence begun here).lower
        have cut (bytes : List UInt8) := decodeFrom_ascii low bytes [] begun proper
        simp only [List.nil_append] at cut
        rw [cut] at decoded
        obtain ⟨front, rfl, rest⟩ := foreign (decodeFrom_nil_high begun) decoded
        cases front with
        | nil =>
            obtain ⟨same, rfl⟩ := List.cons.inj rest
            rw [UInt8.toNat_inj.mp same]
            exact ⟨[], bytes, rfl, by simp, rfl⟩
        | cons character front =>
            obtain ⟨rfl, later⟩ := List.cons.inj rest
            obtain ⟨front, tail, rfl, rfl, rfl⟩ := ih none front (by simp) later
            exact ⟨next :: front, tail, rfl, (cut front).symm, rfl⟩
      · obtain ⟨outputs, continued⟩ := decodeByte_high sequence (UInt8.not_lt.mp low)
        rw [decodeFrom] at decoded
        obtain ⟨front, rfl, later⟩ := foreign outputs decoded
        obtain ⟨front, rest, rfl, rfl, rfl⟩ := ih _ front continued later
        exact ⟨next :: front, rest, rfl, by rw [decodeFrom], rfl⟩

theorem utf8Decode_unsplit {byte : UInt8} (ascii : byte < 0x80) {bytes : List UInt8}
    {before behind : List Nat} (decoded : utf8Decode bytes = before ++ byte.toNat :: behind) :
    ∃ front rest, bytes = front ++ byte :: rest ∧ before = utf8Decode front ∧
      behind = utf8Decode rest :=
  decodeFrom_unsplit ascii behind bytes none before (by simp) decoded

/-- A byte gives a character or belongs to a sequence. -/
theorem decodeByte_progress (state : Option Begun) (byte : UInt8) :
    (decodeByte state byte).1 ≠ [] ∨ ∃ next, (decodeByte state byte).2 = some next := by
  cases state with
  | none =>
      simp only [decodeByte, decodeStart]
      repeat' split
      all_goals simp
  | some begun =>
      simp only [decodeByte]
      repeat' split
      all_goals simp

theorem utf8Decode_ne_nil {bytes : List UInt8} (nonempty : bytes ≠ []) : utf8Decode bytes ≠ [] := by
  have more (bytes : List UInt8) : ∀ begun, decodeFrom (some begun) bytes ≠ [] := by
    induction bytes with
    | nil => simp [decodeFrom]
    | cons byte bytes ih =>
        intro begun
        rcases decodeByte_progress (some begun) byte with now | ⟨next, later⟩
        · simp [decodeFrom, now]
        · simp [decodeFrom, later, ih]
  obtain ⟨byte, rest, rfl⟩ := List.exists_cons_of_ne_nil nonempty
  rcases decodeByte_progress none byte with now | ⟨next, later⟩
  · simp [utf8Decode, decodeFrom, now]
  · simp [utf8Decode, decodeFrom, later, more]

theorem prefix_of_utf8Decode {marker : List UInt8} (ascii : ∀ byte ∈ marker, byte < 0x80) :
    ∀ {bytes : List UInt8}, marker.map UInt8.toNat <+: utf8Decode bytes → marker <+: bytes := by
  induction marker with
  | nil => exact fun _ => List.nil_prefix
  | cons byte marker ih =>
      intro bytes starts
      obtain ⟨behind, decoded⟩ := starts
      obtain ⟨front, rest, rfl, before, later⟩ :=
        @utf8Decode_unsplit byte (ascii byte List.mem_cons_self) _ [] _ decoded.symm
      have none : front = [] := by
        by_contra nonempty
        exact utf8Decode_ne_nil nonempty before.symm
      rw [none]
      apply List.cons_prefix_cons.mpr
      refine ⟨rfl, ih (fun other member => ascii other (List.mem_cons_of_mem _ member)) ?_⟩
      exact ⟨behind, later⟩

/-- A marker of ASCII that is in the text is in the bytes. -/
theorem within_of_utf8Decode {marker : List UInt8} (ascii : ∀ byte ∈ marker, byte < 0x80)
    {bytes : List UInt8} (inside : marker.map UInt8.toNat <:+: utf8Decode bytes) :
    marker <:+: bytes := by
  cases marker with
  | nil => exact List.nil_infix
  | cons byte marker =>
      obtain ⟨before, behind, decoded⟩ := inside
      simp only [List.map_cons, List.append_assoc, List.cons_append] at decoded
      obtain ⟨front, rest, rfl, -, later⟩ :=
        utf8Decode_unsplit (ascii byte List.mem_cons_self) decoded.symm
      have starts := prefix_of_utf8Decode
        (fun other member => ascii other (List.mem_cons_of_mem _ member)) ⟨behind, later⟩
      exact ((List.cons_prefix_cons.mpr ⟨rfl, starts⟩).isInfix).trans (List.suffix_append _ _).isInfix

/-- `text.split('\n')` -/
def lines (text : List Nat) : List (List Nat) := text.splitOn 10

theorem words_space {character : Nat} (space : isWhiteSpace character = true) (text : List Nat) :
    words (character :: text) = words text := by
  simp [words, List.splitOnP_cons_eq_if_modifyHead, space]

theorem words_word {word : List Nat} (some : word ≠ [])
    (visible : ∀ character ∈ word, isWhiteSpace character = false) {space : Nat}
    (ends : isWhiteSpace space = true) (text : List Nat) :
    words (word ++ space :: text) = word :: words text := by
  rw [words, List.splitOnP_append_cons_of_forall_mem visible space ends]
  simp [some, words]

theorem words_single {word : List Nat} (some : word ≠ [])
    (visible : ∀ character ∈ word, isWhiteSpace character = false) : words word = [word] := by
  rw [words, List.splitOnP_eq_singleton visible]
  simp [some]

theorem words_blank {text : List Nat} (blank : ∀ character ∈ text, isWhiteSpace character = true) :
    words text = [] := by
  induction text with
  | nil => rfl
  | cons first text ih =>
      rw [words_space (blank first List.mem_cons_self)]
      exact ih fun other member => blank other (List.mem_cons_of_mem _ member)

theorem words_ne_nil {text : List Nat} {character : Nat} (member : character ∈ text)
    (visible : isWhiteSpace character = false) : words text ≠ [] := by
  induction text with
  | nil => cases member
  | cons first text ih =>
      cases space : isWhiteSpace first with
      | true =>
          rw [words_space space]
          apply ih
          rcases List.mem_cons.mp member with rfl | later
          · rw [visible] at space
            cases space
          · exact later
      | false =>
          obtain ⟨head, rest, pieces⟩ :=
            List.exists_cons_of_ne_nil (List.splitOnP_ne_nil isWhiteSpace text)
          simp [words, List.splitOnP_cons_eq_if_modifyHead, space, pieces]

end WebText
