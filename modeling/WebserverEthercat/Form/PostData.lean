import WebserverEthercat.Lib.CString

/-!
# Scanning the body of a POST

`parse_post_data` on memory blocks, for any function that takes the pairs.  On
a terminated string it is a fold over `scanPairs`, the scan written on lists.
-/

set_option autoImplicit false

namespace WebserverEthercat.Form

open CString

variable {State : Type}

def ampersand : UInt8 := 38

def plusSign : UInt8 := 43

def equalsSign : UInt8 := 61

def decodePlusToSpace : Block → Option Block
  | [] | none :: _ => none
  | some byte :: rest =>
      if byte = 0 then some (some byte :: rest)
      else (decodePlusToSpace rest).map (some (if byte = plusSign then 32 else byte) :: ·)

/-- The array `key`, of `keyLen + 1` bytes, copied from `source`. -/
def extractKey (source : Block) (keyLen : Nat) : Option Block := do
  let key ← strncpy keyLen (uninitialised (keyLen + 1)) source
  let key ← store key keyLen 0
  decodePlusToSpace key

def extractValue (source : Block) (valueLen : Nat) : Option Block := do
  let value ← strncpy valueLen (uninitialised (valueLen + 1)) source
  store value valueLen 0

/-- The loop over `pair`, a pointer into `data` or null.  Each round moves it
forward, so that the length of the text is fuel enough. -/
def parsePairs (parseKeyValue : State → Block → Block → Option State) (data : Block) :
    Nat → Option Nat → State → Option State
  | _, none, state => some state
  | 0, some _, _ => none
  | fuel + 1, some pair, state => do
      match ← strchr equalsSign (data.drop pair) with
      | none => some state
      | some keyLen =>
          let key ← extractKey (data.drop pair) keyLen
          let afterEquals := data.drop (pair + keyLen + 1)
          let nextPair ← strchr ampersand afterEquals
          let valueLen ← match nextPair with
            | some length => some length
            | none => strlen afterEquals
          let value ← extractValue afterEquals valueLen
          let state ← parseKeyValue state key value
          parsePairs parseKeyValue data fuel
            (nextPair.map fun length => pair + keyLen + 1 + length + 1) state

@[simp] theorem parsePairs_none (parseKeyValue : State → Block → Block → Option State)
    (data : Block) (fuel : Nat) (state : State) :
    parsePairs parseKeyValue data fuel none state = some state := by
  cases fuel <;> rfl

def parsePostData (parseKeyValue : State → Block → Block → Option State) (strdupOk : Bool)
    (postData : Block) (state : State) : Option State := do
  let data ← strdup postData
  if strdupOk then parsePairs parseKeyValue data data.length (some 0) state else some state

/-! ## The scan on lists -/

def plusToSpace (text : List UInt8) : List UInt8 :=
  text.map fun byte => if byte = plusSign then 32 else byte

def scanPairs (text : List UInt8) : List (List UInt8 × List UInt8) :=
  if equalsSign ∈ text then
    let rest := (text.dropWhile (· ≠ equalsSign)).tail
    (plusToSpace (text.takeWhile (· ≠ equalsSign)), rest.takeWhile (· ≠ ampersand)) ::
      if ampersand ∈ rest then scanPairs (rest.dropWhile (· ≠ ampersand)).tail else []
  else []
termination_by text.length
decreasing_by
  have bound : ∀ (stop : UInt8) (list : List UInt8),
      (list.dropWhile (· ≠ stop)).tail.length ≤ list.length - 1 := by
    intro stop list
    have suffix := (List.dropWhile_suffix (l := list) (· ≠ stop)).length_le
    simp only [List.length_tail]
    omega
  have positive := List.length_pos_of_mem ‹equalsSign ∈ text›
  have inner := bound ampersand (text.dropWhile (· ≠ equalsSign)).tail
  have outer := bound equalsSign text
  omega

theorem takeWhile_stop {stop : UInt8} {before : List UInt8} (absent : stop ∉ before)
    (after : List UInt8) :
    (before ++ stop :: after).takeWhile (· ≠ stop) = before ∧
      (before ++ stop :: after).dropWhile (· ≠ stop) = stop :: after := by
  induction before with
  | nil => simp
  | cons byte before ih =>
      simp only [List.mem_cons, not_or] at absent
      obtain ⟨taken, dropped⟩ := ih absent.2
      have goes : decide (byte ≠ stop) = true := by simpa using Ne.symm absent.1
      simp only [List.cons_append, List.takeWhile_cons, List.dropWhile_cons, goes, if_true,
        taken, dropped, and_self]

theorem takeWhile_absent {stop : UInt8} {text : List UInt8} (absent : stop ∉ text) :
    text.takeWhile (· ≠ stop) = text := by
  rw [List.takeWhile_eq_self_iff]
  intro byte member
  simp only [decide_eq_true_eq]
  intro same
  exact absent (same ▸ member)

theorem scanPairs_absent {text : List UInt8} (absent : equalsSign ∉ text) :
    scanPairs text = [] := by
  rw [scanPairs, if_neg absent]

theorem scanPairs_last {key value : List UInt8} (keyEnds : equalsSign ∉ key)
    (valueEnds : ampersand ∉ value) :
    scanPairs (key ++ equalsSign :: value) = [(plusToSpace key, value)] := by
  obtain ⟨taken, dropped⟩ := takeWhile_stop keyEnds value
  rw [scanPairs, if_pos (by simp), taken, dropped]
  simp only [List.tail_cons, takeWhile_absent valueEnds, valueEnds, if_false]

theorem scanPairs_cons {key value : List UInt8} (keyEnds : equalsSign ∉ key)
    (valueEnds : ampersand ∉ value) (rest : List UInt8) :
    scanPairs (key ++ equalsSign :: (value ++ ampersand :: rest)) =
      (plusToSpace key, value) :: scanPairs rest := by
  obtain ⟨taken, dropped⟩ := takeWhile_stop keyEnds (value ++ ampersand :: rest)
  obtain ⟨valueTaken, valueDropped⟩ := takeWhile_stop valueEnds rest
  rw [scanPairs, if_pos (by simp), taken, dropped]
  simp only [List.tail_cons, valueTaken, valueDropped, List.mem_append, List.mem_cons, true_or,
    or_true, if_true]

/-- A text has no `=`, one pair left, or a pair and a rest behind its `&`. -/
theorem scan_induction {motive : List UInt8 → Prop}
    (absent : ∀ text, equalsSign ∉ text → motive text)
    (last : ∀ key value, equalsSign ∉ key → ampersand ∉ value →
      motive (key ++ equalsSign :: value))
    (more : ∀ key value rest, equalsSign ∉ key → ampersand ∉ value → motive rest →
      motive (key ++ equalsSign :: (value ++ ampersand :: rest))) :
    ∀ text, motive text := by
  intro text
  induction sized : text.length using Nat.strong_induction_on generalizing text with
  | _ size ih =>
      by_cases present : equalsSign ∈ text
      · obtain ⟨key, tail, rfl, keyEnds⟩ := List.eq_append_cons_of_mem present
        by_cases separated : ampersand ∈ tail
        · obtain ⟨value, rest, rfl, valueEnds⟩ := List.eq_append_cons_of_mem separated
          refine more key value rest keyEnds valueEnds (ih rest.length ?_ rest rfl)
          rw [← sized]
          simp only [List.length_append, List.length_cons]
          omega
        · exact last key tail keyEnds separated
      · exact absent text present

/-! ## The loop is the scan -/

theorem decodePlusToSpace_of_holds (text : List UInt8) :
    ∀ block, Holds block text →
      ∃ decoded, decodePlusToSpace block = some decoded ∧ Holds decoded (plusToSpace text) := by
  induction text with
  | nil =>
      intro block holds
      obtain ⟨rest, rfl⟩ := (holds_nil_iff block).mp holds
      exact ⟨_, rfl, holds⟩
  | cons byte text ih =>
      intro block holds
      obtain ⟨nonzero, rest, rfl, tail⟩ := (holds_cons_iff ..).mp holds
      obtain ⟨decoded, success, decodedHolds⟩ := ih rest tail
      refine ⟨some (if byte = plusSign then 32 else byte) :: decoded,
        by simp [decodePlusToSpace, nonzero, success], ?_⟩
      refine (holds_cons_iff ..).mpr ⟨?_, decoded, rfl, decodedHolds⟩
      by_cases plus : byte = plusSign
      · simp [plus]
      · simpa [plus] using nonzero

theorem extractValue_prefix {source : Block} {value after : List UInt8}
    (holds : Holds source (value ++ after)) :
    ∃ extracted, extractValue source value.length = some extracted ∧ Holds extracted value := by
  have noNul := holds.noNul
  simp only [List.mem_append, not_or] at noNul
  obtain ⟨rest, rfl⟩ := holds.cells
  have copied := strncpy_prefix value noNul.1 (uninitialised (value.length + 1))
    (after.map some ++ some 0 :: rest) (by simp [uninitialised])
  refine ⟨terminated value, ?_, holds_terminated noNul.1⟩
  rw [extractValue, List.map_append, List.append_assoc, copied]
  simp [store, uninitialised, terminated]

theorem extractKey_eq (source : Block) (keyLen : Nat) :
    extractKey source keyLen = (extractValue source keyLen).bind decodePlusToSpace := by
  simp only [extractKey, extractValue, Option.bind_eq_bind, Option.bind_assoc]

theorem extractKey_prefix {source : Block} {key after : List UInt8}
    (holds : Holds source (key ++ after)) :
    ∃ extracted, extractKey source key.length = some extracted ∧
      Holds extracted (plusToSpace key) := by
  obtain ⟨copied, success, copiedHolds⟩ := extractValue_prefix holds
  rw [extractKey_eq, success, Option.bind_some]
  exact decodePlusToSpace_of_holds key copied copiedHolds

/-- One round of the loop, at a pointer to a text with an `=`. -/
theorem parsePairs_round (parseKeyValue : State → Block → Block → Option State) {data : Block}
    {pair : Nat} (fuel : Nat) {key value : List UInt8} (after : List UInt8)
    (keyEnds : equalsSign ∉ key)
    (holds : Holds (data.drop pair) (key ++ equalsSign :: (value ++ after))) (state : State)
    (nextPair : Option Nat)
    (found : ∀ source, Holds source (value ++ after) →
      strchr ampersand source = some nextPair ∧
        (nextPair = none → strlen source = some value.length))
    (next : ∀ length, nextPair = some length → length = value.length) :
    ∃ keyBlock valueBlock, Holds keyBlock (plusToSpace key) ∧ Holds valueBlock value ∧
      parsePairs parseKeyValue data (fuel + 1) (some pair) state =
        (parseKeyValue state keyBlock valueBlock).bind
          (parsePairs parseKeyValue data fuel
            (nextPair.map fun length => pair + key.length + 1 + length + 1)) := by
  obtain ⟨keyBlock, keyCopied, keyHolds⟩ := extractKey_prefix holds
  have behind : Holds (data.drop (pair + key.length + 1)) (value ++ after) := by
    have moved : Holds ((data.drop pair).drop (key ++ [equalsSign]).length) (value ++ after) := by
      apply Holds.drop
      simpa [List.append_assoc] using holds
    rw [List.drop_drop, List.length_append, List.length_singleton, ← Nat.add_assoc] at moved
    exact moved
  obtain ⟨valueBlock, valueCopied, valueHolds⟩ := extractValue_prefix behind
  refine ⟨keyBlock, valueBlock, keyHolds, valueHolds, ?_⟩
  have equals := strchr_of_holds_split equalsSign key (value ++ after) keyEnds _ holds
  obtain ⟨separator, measured⟩ := found _ behind
  cases nextPair with
  | none =>
      have last : parsePairs parseKeyValue data fuel none = some := by
        funext state
        exact parsePairs_none parseKeyValue data fuel state
      rw [Option.map_none, last, Option.bind_fun_some]
      simp [parsePairs, equals, keyCopied, separator, measured rfl, valueCopied]
  | some length =>
      have same := next length rfl
      subst same
      simp [parsePairs, equals, keyCopied, separator, valueCopied]

/-- A function of blocks that only depends on the strings they hold. -/
def Reads (parseKeyValue : State → Block → Block → Option State)
    (parseText : State → List UInt8 × List UInt8 → Option State) : Prop :=
  ∀ state keyBlock valueBlock key value, Holds keyBlock key → Holds valueBlock value →
    parseKeyValue state keyBlock valueBlock = parseText state (key, value)

theorem parsePairs_eq_scanPairs {parseKeyValue : State → Block → Block → Option State}
    {parseText : State → List UInt8 × List UInt8 → Option State}
    (reads : Reads parseKeyValue parseText) (data : Block) :
    ∀ (text : List UInt8) (pair fuel : Nat) (state : State), Holds (data.drop pair) text →
      text.length < fuel →
      parsePairs parseKeyValue data fuel (some pair) state =
        (scanPairs text).foldlM parseText state := by
  intro text
  induction text using scan_induction with
  | absent text missing =>
      intro pair fuel state holds enough
      obtain ⟨fuel, rfl⟩ := Nat.exists_eq_add_one_of_ne_zero (Nat.ne_zero_of_lt enough)
      have none_left := strchr_of_holds_absent equalsSign (by decide) text missing _ holds
      simp [parsePairs, none_left, scanPairs_absent missing]
  | last key value keyEnds valueEnds =>
      intro pair fuel state holds enough
      obtain ⟨fuel, rfl⟩ := Nat.exists_eq_add_one_of_ne_zero (Nat.ne_zero_of_lt enough)
      obtain ⟨keyBlock, valueBlock, keyHolds, valueHolds, round⟩ :=
        parsePairs_round parseKeyValue fuel [] keyEnds (by simpa using holds) state none
          (fun source whole => by
            rw [List.append_nil] at whole
            exact ⟨strchr_of_holds_absent ampersand (by decide) value valueEnds source whole,
              fun _ => strlen_of_holds value source whole⟩)
          (by simp)
      rw [round, reads state _ _ _ _ keyHolds valueHolds, scanPairs_last keyEnds valueEnds]
      cases parsed : parseText state (plusToSpace key, value) with
      | none => simp [parsed]
      | some after => simp [parsed]
  | more key value rest keyEnds valueEnds ih =>
      intro pair fuel state holds enough
      obtain ⟨fuel, rfl⟩ := Nat.exists_eq_add_one_of_ne_zero (Nat.ne_zero_of_lt enough)
      obtain ⟨keyBlock, valueBlock, keyHolds, valueHolds, round⟩ :=
        parsePairs_round parseKeyValue fuel (ampersand :: rest) keyEnds holds state
          (some value.length)
          (fun source whole =>
            ⟨strchr_of_holds_split ampersand value rest valueEnds source whole, by simp⟩)
          (by simp)
      have behind : Holds (data.drop (pair + key.length + 1 + value.length + 1)) rest := by
        have moved : Holds ((data.drop pair).drop
            (key ++ equalsSign :: (value ++ [ampersand])).length) rest := by
          apply Holds.drop
          simpa [List.append_assoc] using holds
        have position : pair + (key ++ equalsSign :: (value ++ [ampersand])).length =
            pair + key.length + 1 + value.length + 1 := by
          simp only [List.length_append, List.length_cons, List.length_nil]
          omega
        rw [List.drop_drop, position] at moved
        exact moved
      have shorter : rest.length < fuel := by
        simp only [List.length_append, List.length_cons] at enough
        omega
      rw [round, reads state _ _ _ _ keyHolds valueHolds, scanPairs_cons keyEnds valueEnds]
      cases parsed : parseText state (plusToSpace key, value) with
      | none => simp [parsed]
      | some after =>
          have later := ih _ fuel after behind shorter
          simp [parsed, later]

/-- On a terminated body the parser is a fold over the scanned pairs, without a
fault and without running out of fuel. -/
theorem parsePostData_eq_scanPairs {parseKeyValue : State → Block → Block → Option State}
    {parseText : State → List UInt8 × List UInt8 → Option State}
    (reads : Reads parseKeyValue parseText) (strdupOk : Bool) {postData : Block}
    {body : List UInt8} (holds : Holds postData body) (state : State) :
    parsePostData parseKeyValue strdupOk postData state =
      if strdupOk then (scanPairs body).foldlM parseText state else some state := by
  rw [parsePostData, strdup_of_holds holds, Option.bind_eq_bind, Option.bind_some]
  cases strdupOk with
  | false => rfl
  | true =>
      simp only [if_true]
      apply parsePairs_eq_scanPairs reads (terminated body) body 0 _ state
      · exact holds_terminated holds.noNul
      · simp [terminated]

end WebserverEthercat.Form
