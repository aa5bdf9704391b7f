import Mathlib.Data.Nat.Bitwise
import Mathlib.Data.UInt
import WebserverEthercat.Lib.Checked
import WebserverEthercat.Lib.Reads

/-!
# The EEPROM cache

`ecx_siigetbyte` keeps the bytes of one slave in `esibuf`, with a bit for each
of them in `esimap`.  A missing byte is fetched with the four or eight bytes
that the slave answers at once.
-/

set_option autoImplicit false

namespace WebserverEthercat.Eeprom

open Checked Reads

structure EepromCache where
  esislave : UInt16
  esibuf : Vector UInt8 4096
  esimap : Vector UInt32 128

structure EepromDevice where
  eep8byte : UInt16 → Bool
  /-- `ecx_readeepromFP` at a word address; the byte at the lowest address is the lowest one -/
  readeepromFP : UInt16 → UInt16 → UInt64

def EepromDevice.cnt (device : EepromDevice) (slave : UInt16) : Nat :=
  if device.eep8byte slave then 8 else 4

/-! ## `ecx_siigetbyte` -/

def byteOf (edat : UInt64) (lp : Nat) : UInt8 := (edat >>> UInt64.ofNat (8 * lp)).toUInt8

/-- `put_unaligned64`, or `put_unaligned32` of the low half. -/
def putUnaligned (esibuf : Vector UInt8 4096) (start : UInt16) (cnt : Nat) (edat : UInt64) :
    Option (Vector UInt8 4096) :=
  (List.range cnt).foldlM (fun buf lp => store buf (start + UInt16.ofNat lp) (byteOf edat lp))
    esibuf

structure Marking where
  esimap : Vector UInt32 128
  mapw : UInt16
  mapb : UInt16

def Marking.mark (marking : Marking) : Option Marking := do
  let word ← load marking.esimap marking.mapw
  let esimap ← store marking.esimap marking.mapw (word ||| (1 <<< marking.mapb.toUInt32))
  let mapb := marking.mapb + 1
  if mapb > 31 then some { esimap, mapw := marking.mapw + 1, mapb := 0 }
  else some { esimap, mapw := marking.mapw, mapb }

namespace EepromCache

/-- The map is cleared for another slave. -/
def turnTo (cache : EepromCache) (slave : UInt16) : EepromCache :=
  if slave ≠ cache.esislave then
    { cache with esimap := Vector.replicate 128 0, esislave := slave }
  else cache

/-- `esimap[mapw] & (1U << mapb)` -/
def present (cache : EepromCache) (address : UInt16) : Option Bool := do
  let mapw := address >>> 5
  let mapb := address - (mapw <<< 5)
  let word ← load cache.esimap mapw
  some (word &&& (1 <<< mapb.toUInt32) ≠ 0)

def fetch (device : EepromDevice) (cache : EepromCache) (slave address : UInt16) :
    Option EepromCache := do
  let eadr := address >>> 1
  let esibuf ← putUnaligned cache.esibuf (eadr <<< 1) (device.cnt slave)
    (device.readeepromFP slave eadr)
  let mapw := eadr >>> 4
  let mapb := (eadr <<< 1) - (mapw <<< 5)
  let marking ← times Marking.mark (device.cnt slave) { esimap := cache.esimap, mapw, mapb }
  some { cache with esibuf, esimap := marking.esimap }

end EepromCache

def siigetbyte (device : EepromDevice) (cache : EepromCache) :
    UInt16 × UInt16 → Option (UInt8 × EepromCache)
  | (slave, address) =>
    let turned := cache.turnTo slave
    if address < 4096 then do
      let present ← turned.present address
      let filled ← if present then some turned else turned.fetch device slave address
      let retval ← load filled.esibuf address
      some (retval, filled)
    else some (0xff, turned)

/-! ## The bits of the map -/

/-- The bit of a byte address. -/
def marked (esimap : Vector UInt32 128) (address : Nat) : Bool :=
  (esimap[address / 32]?).any fun word => word.toNat.testBit (address % 32)

@[simp] theorem marked_clear (address : Nat) : marked (Vector.replicate 128 0) address = false := by
  rw [marked, Vector.getElem?_replicate]
  split
  · simp
  · rfl

theorem toNat_bit {mapb : UInt16} (small : mapb.toNat < 32) :
    ((1 : UInt32) <<< mapb.toUInt32).toNat = 2 ^ mapb.toNat := by
  have power : 2 ^ mapb.toNat < 2 ^ 32 := Nat.pow_lt_pow_right (by decide) small
  rw [UInt32.toNat_shiftLeft, UInt16.toNat_toUInt32, Nat.mod_eq_of_lt small, UInt32.toNat_one,
    Nat.one_shiftLeft, Nat.mod_eq_of_lt power]

theorem and_bit_ne_zero (word : UInt32) {mapb : UInt16} (small : mapb.toNat < 32) :
    word &&& (1 <<< mapb.toUInt32) ≠ 0 ↔ word.toNat.testBit mapb.toNat = true := by
  rw [ne_eq, ← UInt32.toNat_inj, UInt32.toNat_and, toNat_bit small, Nat.and_two_pow]
  cases word.toNat.testBit mapb.toNat <;> simp

/-- The word and the bit stand at a byte address. -/
structure Marking.At (marking : Marking) (position : Nat) : Prop where
  mapw : marking.mapw.toNat = position / 32
  mapb : marking.mapb.toNat = position % 32

theorem marked_set (esimap : Vector UInt32 128) {mapw mapb : UInt16} {position : Nat}
    (word : mapw.toNat = position / 32) (bit : mapb.toNat = position % 32)
    (inside : mapw.toNat < 128) (other : Nat) :
    marked (esimap.set mapw.toNat (esimap[mapw.toNat] ||| (1 <<< mapb.toUInt32)) inside) other =
      (other = position || marked esimap other) := by
  have small : mapb.toNat < 32 := by omega
  rw [marked, marked, Vector.getElem?_set]
  by_cases sameWord : mapw.toNat = other / 32
  · have present : esimap[other / 32]? = some esimap[mapw.toNat] := by
      rw [← sameWord, Vector.getElem?_eq_getElem inside]
    have sameBit : mapb.toNat = other % 32 ↔ other = position := by omega
    rw [if_pos sameWord, present, Option.any_some, Option.any_some, UInt32.toNat_or,
      Nat.testBit_or, toNat_bit small, Nat.testBit_two_pow, Bool.or_comm]
    simp only [sameBit]
  · have different : other ≠ position := fun same => sameWord (by rw [word, same])
    simp [sameWord, different]

theorem Marking.mark_spec {marking : Marking} {position : Nat} (at_ : marking.At position)
    (inside : position < 4096) :
    ∃ next, marking.mark = some next ∧ next.At (position + 1) ∧
      ∀ other, marked next.esimap other = (other = position || marked marking.esimap other) := by
  obtain ⟨word, bit⟩ := at_
  have wordInside : marking.mapw.toNat < 128 := by omega
  have incremented : (marking.mapb + 1).toNat = marking.mapb.toNat + 1 := by
    rw [UInt16.toNat_add, UInt16.toNat_one]
    omega
  have nextWord : (marking.mapw + 1).toNat = marking.mapw.toNat + 1 := by
    rw [UInt16.toNat_add, UInt16.toNat_one]
    omega
  have overflows : marking.mapb + 1 > 31 ↔ position % 32 = 31 := by
    have limit : (31 : UInt16).toNat = 31 := rfl
    rw [gt_iff_lt, UInt16.lt_iff_toNat_lt, incremented, limit]
    omega
  have loaded : load marking.esimap marking.mapw = some marking.esimap[marking.mapw.toNat] :=
    Vector.getElem?_eq_getElem wordInside
  simp only [mark, loaded, Option.bind_eq_bind, Option.bind_some, store, dif_pos wordInside]
  by_cases last : position % 32 = 31
  · rw [if_pos (overflows.mpr last)]
    refine ⟨_, rfl, ⟨?_, ?_⟩, marked_set marking.esimap word bit wordInside⟩
    · exact nextWord.trans (by omega)
    · exact UInt16.toNat_zero.trans (by omega)
  · rw [if_neg (mt overflows.mp last)]
    refine ⟨_, rfl, ⟨?_, ?_⟩, marked_set marking.esimap word bit wordInside⟩
    · exact word.trans (by omega)
    · exact incremented.trans (by omega)

theorem Marking.times_mark (cnt : Nat) : ∀ {marking : Marking} {position : Nat},
    marking.At position → position + cnt ≤ 4096 →
      ∃ last, times Marking.mark cnt marking = some last ∧
        ∀ other, marked last.esimap other =
          (decide (position ≤ other ∧ other < position + cnt) || marked marking.esimap other) := by
  induction cnt with
  | zero =>
      intro marking position _ _
      exact ⟨marking, rfl, fun other => by simp⟩
  | succ cnt ih =>
      intro marking position at_ inside
      obtain ⟨next, ran, nextAt, bits⟩ := mark_spec at_ (by omega)
      obtain ⟨last, ends, lastBits⟩ := ih nextAt (by omega)
      refine ⟨last, by rw [times, ran]; exact ends, fun other => ?_⟩
      rw [lastBits, bits, Bool.eq_iff_iff]
      simp only [Bool.or_eq_true, decide_eq_true_eq, ← or_assoc]
      exact or_congr_left (by omega)

/-! ## The bytes -/

/-- The bytes are put when they all are in the buffer. -/
theorem putUnaligned_spec (esibuf : Vector UInt8 4096) (start : UInt16) (edat : UInt64)
    (cnt : Nat) : start.toNat + cnt ≤ 4096 →
      ∃ filled, putUnaligned esibuf start cnt edat = some filled ∧
        ∀ other, filled[other]? =
          if start.toNat ≤ other ∧ other < start.toNat + cnt then
            some (byteOf edat (other - start.toNat)) else esibuf[other]? := by
  induction cnt with
  | zero =>
      intro _
      refine ⟨esibuf, rfl, fun other => ?_⟩
      rw [if_neg (by omega)]
  | succ cnt ih =>
      intro inside
      obtain ⟨filled, ran, bytes⟩ := ih (by omega)
      have cell : (start + UInt16.ofNat cnt).toNat = start.toNat + cnt := by
        rw [UInt16.toNat_add, UInt16.toNat_ofNat']
        omega
      have cellInside : (start + UInt16.ofNat cnt).toNat < 4096 := by omega
      refine ⟨filled.set _ (byteOf edat cnt) cellInside, ?_, fun other => ?_⟩
      · rw [putUnaligned, List.range_succ, List.foldlM_append]
        rw [putUnaligned] at ran
        rw [ran]
        exact congrArg (Option.bind · some) (dif_pos cellInside)
      · rw [Vector.getElem?_set, cell, bytes]
        by_cases here : start.toNat + cnt = other
        · rw [if_pos here, if_pos (by omega), ← here, Nat.add_sub_cancel_left]
        · rw [if_neg here]
          exact if_congr (by omega) rfl rfl

/-- Bytes behind the buffer are never put. -/
theorem putUnaligned_inside {esibuf filled : Vector UInt8 4096} {edat : UInt64} {start : UInt16}
    {cnt : Nat} (low : start.toNat ≤ 4096) (few : cnt < 4096)
    (ran : putUnaligned esibuf start (cnt + 1) edat = some filled) :
    start.toNat + (cnt + 1) ≤ 4096 := by
  rw [putUnaligned, List.range_succ, List.foldlM_append] at ran
  obtain ⟨before, -, last⟩ := Option.bind_eq_some_iff.mp ran
  simp only [List.foldlM_cons, List.foldlM_nil, bind_pure, store] at last
  by_contra outside
  have cell : ¬ (start + UInt16.ofNat cnt).toNat < 4096 := by
    rw [UInt16.toNat_add, UInt16.toNat_ofNat']
    omega
  rw [dif_neg cell] at last
  cases last

end WebserverEthercat.Eeprom
