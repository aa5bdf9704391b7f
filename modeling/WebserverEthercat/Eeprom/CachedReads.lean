import WebserverEthercat.Dump.Sdo
import WebserverEthercat.Eeprom.Cache

/-!
# Reads through the EEPROM cache

Whatever a program reads, and from whichever slaves in turn, it reads what
their EEPROMs hold.
-/

set_option autoImplicit false

namespace WebserverEthercat.Eeprom

open Checked Reads

/-- The bytes of a slave's EEPROM. -/
abbrev EepromContents := UInt16 → UInt16 → UInt8

/-- The device answers with the bytes from the word address on. -/
def EepromDevice.Answers (device : EepromDevice) (contents : EepromContents) : Prop :=
  ∀ slave, ∀ eadr < 2048, ∀ lp < device.cnt slave,
    byteOf (device.readeepromFP slave eadr) lp = contents slave ((eadr <<< 1) + UInt16.ofNat lp)

/-- Bytes that the cache has no room for read as `0xff`. -/
def byteAt (contents : EepromContents) : UInt16 × UInt16 → UInt8
  | (slave, address) => if address < 4096 then contents slave address else 0xff

/-- The answer that brings the byte fits in the buffer. -/
def EepromDevice.Fits (device : EepromDevice) : UInt16 × UInt16 → Prop
  | (slave, address) =>
    address < 4096 → address.toNat / 2 * 2 + device.cnt slave ≤ 4096

/-- Bytes that are in the map are right, and slave 0 has none. -/
structure EepromCache.Valid (contents : EepromContents) (cache : EepromCache) : Prop where
  right : ∀ address : UInt16, address < 4096 → marked cache.esimap address.toNat = true →
    load cache.esibuf address = some (contents cache.esislave address)
  master : cache.esislave = 0 → ∀ address, marked cache.esimap address = false

variable {device : EepromDevice} {contents : EepromContents} {cache : EepromCache}
  {slave address : UInt16}

namespace EepromCache

@[simp] theorem turnTo_esislave : (cache.turnTo slave).esislave = slave := by
  rw [turnTo]
  split
  · rfl
  · exact (not_ne_iff.mp ‹_›).symm

theorem Valid.turnTo (valid : cache.Valid contents) (slave : UInt16) :
    (cache.turnTo slave).Valid contents := by
  rw [EepromCache.turnTo]
  split
  · exact ⟨fun address _ bit => absurd bit (by simp), fun _ address => marked_clear address⟩
  · exact valid

/-- The visit of slave 0 makes the cache valid for other EEPROMs. -/
theorem Valid.cleared (valid : cache.Valid contents) (others : EepromContents) :
    (cache.turnTo 0).Valid others := by
  have none := (valid.turnTo 0).master turnTo_esislave
  exact ⟨fun address _ bit => absurd bit (by simp [none]), fun _ => none⟩

theorem present_eq (inside : address < 4096) :
    cache.present address = some (marked cache.esimap address.toNat) := by
  have small : address.toNat < 4096 := UInt16.lt_iff_toNat_lt.mp inside
  have word : (address >>> 5).toNat = address.toNat / 32 := by
    rw [UInt16.toNat_shiftRight]
    exact Nat.shiftRight_eq_div_pow _ 5
  have bit : (address - ((address >>> 5) <<< 5)).toNat = address.toNat % 32 := by
    have start : ((address >>> 5) <<< 5).toNat = address.toNat / 32 * 32 := by
      rw [UInt16.toNat_shiftLeft, word]
      exact (Nat.shiftLeft_eq _ 5).symm ▸ Nat.mod_eq_of_lt (by omega)
    rw [UInt16.toNat_sub_of_le _ _ (UInt16.le_iff_toNat_le.mpr (by omega)), start]
    omega
  have wordInside : address.toNat / 32 < 128 := by omega
  have testBit := and_bit_ne_zero cache.esimap[address.toNat / 32]
    (by omega : (address - ((address >>> 5) <<< 5)).toNat < 32)
  rw [bit] at testBit
  simp only [present, load, word, Vector.getElem?_eq_getElem wordInside, Option.bind_eq_bind,
    Option.bind_some, marked, Option.any_some, testBit, Bool.decide_eq_true]

end EepromCache

/-! ## A fetch -/

theorem toNat_eadr (address : UInt16) : (address >>> 1).toNat = address.toNat / 2 := by
  rw [UInt16.toNat_shiftRight]
  exact Nat.shiftRight_eq_div_pow _ 1

theorem toNat_start (address : UInt16) :
    ((address >>> 1) <<< 1).toNat = address.toNat / 2 * 2 := by
  have bound := address.toNat_lt
  rw [UInt16.toNat_shiftLeft, toNat_eadr]
  exact (Nat.shiftLeft_eq _ 1).symm ▸ Nat.mod_eq_of_lt (by omega)

theorem marking_at (esimap : Vector UInt32 128) (address : UInt16) :
    Marking.At ⟨esimap, (address >>> 1) >>> 4,
      ((address >>> 1) <<< 1) - (((address >>> 1) >>> 4) <<< 5)⟩ (address.toNat / 2 * 2) := by
  have bound := address.toNat_lt
  have word : ((address >>> 1) >>> 4).toNat = address.toNat / 32 := by
    rw [UInt16.toNat_shiftRight, toNat_eadr]
    exact (Nat.shiftRight_eq_div_pow _ 4).trans (by omega)
  have wordStart : (((address >>> 1) >>> 4) <<< 5).toNat = address.toNat / 32 * 32 := by
    rw [UInt16.toNat_shiftLeft, word]
    exact (Nat.shiftLeft_eq _ 5).symm ▸ Nat.mod_eq_of_lt (by omega)
  have start := toNat_start address
  constructor
  · exact word.trans (by omega)
  · show (((address >>> 1) <<< 1) - (((address >>> 1) >>> 4) <<< 5)).toNat = _
    rw [UInt16.toNat_sub_of_le _ _ (UInt16.le_iff_toNat_le.mpr (by omega)), start, wordStart]
    omega

theorem EepromDevice.cnt_cases (device : EepromDevice) (slave : UInt16) :
    device.cnt slave = 8 ∨ device.cnt slave = 4 := by
  rw [cnt]
  split
  · exact .inl rfl
  · exact .inr rfl

theorem EepromCache.fetch_spec (answers : device.Answers contents)
    (valid : cache.Valid contents) (turned : cache.esislave = slave) (real : slave ≠ 0)
    (inside : address.toNat / 2 * 2 + device.cnt slave ≤ 4096) :
    ∃ filled, cache.fetch device slave address = some filled ∧ filled.Valid contents ∧
      load filled.esibuf address = some (contents slave address) := by
  have start := toNat_start address
  have wordInside : address >>> 1 < 2048 := by
    have wide := device.cnt_cases slave
    have limit : (2048 : UInt16).toNat = 2048 := rfl
    rw [UInt16.lt_iff_toNat_lt, toNat_eadr, limit]
    omega
  obtain ⟨esibuf, put, bytes⟩ := putUnaligned_spec cache.esibuf ((address >>> 1) <<< 1)
    (device.readeepromFP slave (address >>> 1)) (device.cnt slave) (by omega)
  obtain ⟨marking, marked, bits⟩ := Marking.times_mark (device.cnt slave)
    (marking_at cache.esimap address) inside
  rw [start] at bytes
  have fresh (other : UInt16) (low : address.toNat / 2 * 2 ≤ other.toNat)
      (high : other.toNat < address.toNat / 2 * 2 + device.cnt slave) :
      load esibuf other = some (contents slave other) := by
    have there : (address >>> 1) <<< 1 + UInt16.ofNat (other.toNat - address.toNat / 2 * 2) =
        other := by
      rw [← UInt16.toNat_inj, UInt16.toNat_add, start, UInt16.toNat_ofNat']
      omega
    rw [load, bytes, if_pos ⟨low, high⟩, answers slave _ wordInside _ (by omega), there]
  refine ⟨{ cache with esibuf, esimap := marking.esimap }, ?_, ⟨?_, ?_⟩, ?_⟩
  · simp only [fetch, put, marked, Option.bind_eq_bind, Option.bind_some]
  · intro other otherInside bit
    rw [bits, Bool.or_eq_true, decide_eq_true_eq] at bit
    show load esibuf other = some (contents cache.esislave other)
    rw [turned]
    by_cases new : address.toNat / 2 * 2 ≤ other.toNat ∧
        other.toNat < address.toNat / 2 * 2 + device.cnt slave
    · exact fresh other new.1 new.2
    · have old := valid.right other otherInside (bit.resolve_left new)
      rw [load, bytes, if_neg new]
      rw [turned] at old
      exact old
  · exact fun zero => absurd (turned.symm.trans zero) real
  · have wide := device.cnt_cases slave
    exact fresh address (by omega) (by omega)

/-- A fetch that fits nowhere else does not return. -/
theorem EepromCache.fetch_inside {filled : EepromCache} (inside : address < 4096)
    (ran : cache.fetch device slave address = some filled) :
    address.toNat / 2 * 2 + device.cnt slave ≤ 4096 := by
  obtain ⟨esibuf, put, -⟩ := Option.bind_eq_some_iff.mp ran
  have small : address.toNat < 4096 := UInt16.lt_iff_toNat_lt.mp inside
  have start := toNat_start address
  have wide := device.cnt_cases slave
  have positive : device.cnt slave = device.cnt slave - 1 + 1 := by omega
  rw [positive] at put
  have bound := putUnaligned_inside (by omega) (by omega) put
  omega

/-! ## Runs -/

theorem siigetbyte_serves (answers : device.Answers contents) :
    Serves (siigetbyte device) (byteAt contents) (EepromCache.Valid contents)
      fun asked => asked.1 ≠ 0 ∧ device.Fits asked := by
  rintro cache ⟨slave, address⟩ valid ⟨real, fits⟩
  have turned := valid.turnTo slave
  by_cases inside : address < 4096
  · simp only [siigetbyte, byteAt, if_pos inside, EepromCache.present_eq inside,
      Option.bind_eq_bind, Option.bind_some]
    by_cases bit : marked (cache.turnTo slave).esimap address.toNat = true
    · have held := turned.right address inside bit
      rw [EepromCache.turnTo_esislave] at held
      exact ⟨_, by rw [if_pos bit]; simp only [Option.bind_some, held], turned⟩
    · obtain ⟨filled, fetched, filledValid, held⟩ := EepromCache.fetch_spec answers turned
        EepromCache.turnTo_esislave real (fits inside)
      exact ⟨filled, by rw [if_neg bit]; simp only [Option.bind_some, fetched, held], filledValid⟩
  · refine ⟨cache.turnTo slave, ?_, turned⟩
    simp only [siigetbyte, byteAt, if_neg inside]

/-- A byte that is missing is fetched beyond the buffer's end when it is among the last ones. -/
theorem siigetbyte_overruns_iff (answers : device.Answers contents) (valid : cache.Valid contents)
    (real : slave ≠ 0) (inside : address < 4096) :
    siigetbyte device cache (slave, address) = none ↔
      marked (cache.turnTo slave).esimap address.toNat = false ∧
        4096 < address.toNat / 2 * 2 + device.cnt slave := by
  have turned := valid.turnTo slave
  simp only [siigetbyte, if_pos inside, EepromCache.present_eq inside, Option.bind_eq_bind,
    Option.bind_some]
  by_cases bit : marked (cache.turnTo slave).esimap address.toNat = true
  · have held := turned.right address inside bit
    rw [if_pos bit]
    simp [bit, held]
  · rw [if_neg bit]
    constructor
    · intro failed
      refine ⟨Bool.eq_false_iff.mpr bit, ?_⟩
      by_contra room
      obtain ⟨filled, fetched, -, held⟩ := EepromCache.fetch_spec answers turned
        EepromCache.turnTo_esislave real (Nat.le_of_not_lt room)
      simp [fetched, held] at failed
    · rintro ⟨-, beyond⟩
      cases fetched : (cache.turnTo slave).fetch device slave address with
      | none => rfl
      | some filled => exact absurd (EepromCache.fetch_inside inside fetched) (by omega)

/-! ## Sessions -/

/-- A network, and what is read from its slaves. -/
structure Session (Result : Type) where
  device : EepromDevice
  contents : EepromContents
  program : Program (UInt16 × UInt16) UInt8 Result
  answers : device.Answers contents
  slaves : ∀ asked ∈ program.addresses (byteAt contents), asked.1 ≠ 0

variable {Result : Type}

namespace Session

def result (session : Session Result) : Result := session.program.run (byteAt session.contents)

def Fits (session : Session Result) : Prop :=
  ∀ asked ∈ session.program.addresses (byteAt session.contents), session.device.Fits asked

/-- `ecx_init_context` turns to slave 0, at an address behind the buffer. -/
def serve (session : Session Result) (cache : EepromCache) : Option (Result × EepromCache) := do
  let (_, cleared) ← siigetbyte session.device cache (0, 4096)
  session.program.serve (siigetbyte session.device) cleared

def serveAll : List (Session Result) → EepromCache → Option (List Result × EepromCache)
  | [], cache => some ([], cache)
  | session :: rest, cache => do
      let (result, after) ← session.serve cache
      let (results, last) ← serveAll rest after
      some (result :: results, last)

end Session

def EepromCache.initial : EepromCache where
  esislave := 0
  esibuf := Vector.replicate 4096 0
  esimap := Vector.replicate 128 0

theorem EepromCache.initial_valid (contents : EepromContents) : initial.Valid contents :=
  ⟨fun _ _ bit => absurd bit (by simp [initial]), fun _ address => marked_clear address⟩

theorem littleEndian_byte (bytes : List UInt8) : ∀ (k : Nat) (inside : k < bytes.length),
    littleEndian bytes / 256 ^ k % 256 = bytes[k].toNat := by
  induction bytes with
  | nil => exact fun _ inside => absurd inside (Nat.not_lt_zero _)
  | cons byte bytes ih =>
      intro k inside
      have small := byte.toNat_lt
      cases k with
      | zero =>
          rw [littleEndian, Nat.pow_zero, Nat.div_one]
          exact (Nat.add_mul_mod_self_left _ _ _).trans (Nat.mod_eq_of_lt small)
      | succ k =>
          have tail : littleEndian (byte :: bytes) / 256 = littleEndian bytes := by
            rw [littleEndian]
            omega
          rw [Nat.pow_succ, Nat.mul_comm, ← Nat.div_div_eq_div_mul, tail]
          exact ih k (Nat.lt_of_succ_lt_succ inside)

/-- The device with an EEPROM of its own in each slave. -/
def EepromDevice.storing (contents : EepromContents) (eep8byte : UInt16 → Bool) :
    EepromDevice where
  eep8byte
  readeepromFP slave eadr := UInt64.ofNat <| littleEndian <|
    (List.range 8).map fun lp => contents slave ((eadr <<< 1) + UInt16.ofNat lp)

theorem EepromDevice.storing_answers (contents : EepromContents) (eep8byte : UInt16 → Bool) :
    (storing contents eep8byte).Answers contents := by
  intro slave eadr _ lp inside
  have eight : lp < 8 := by
    have wide := (storing contents eep8byte).cnt_cases slave
    omega
  have length : lp < ((List.range 8).map fun lp =>
      contents slave ((eadr <<< 1) + UInt16.ofNat lp)).length := by simpa using eight
  have byte := littleEndian_byte _ lp length
  have whole := littleEndian_lt ((List.range 8).map fun lp =>
    contents slave ((eadr <<< 1) + UInt16.ofNat lp))
  rw [List.length_map, List.length_range] at whole
  rw [List.getElem_map, List.getElem_range] at byte
  rw [← UInt8.toNat_inj, ← byte, byteOf, storing, UInt64.toNat_toUInt8, UInt64.toNat_shiftRight,
    UInt64.toNat_ofNat', UInt64.toNat_ofNat', Nat.shiftRight_eq_div_pow,
    Nat.mod_eq_of_lt (whole.trans_eq (by decide)), Nat.mod_eq_of_lt (by omega : 8 * lp < 2 ^ 64),
    Nat.mod_eq_of_lt (by omega : 8 * lp < 64), Nat.pow_mul]

end WebserverEthercat.Eeprom
