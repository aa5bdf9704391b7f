import WebserverEthercat.Eeprom.Lookup

/-!
# The search ends

`ecx_siifind` follows the lengths that it reads, whatever they are.  It comes to
an end mark, or to the end of the cache, where it reads `0xffff`, unless a length
carries the 16-bit address around.
-/

set_option autoImplicit false

namespace WebserverEthercat.Eeprom

open Reads

def wordAt (contents : UInt16 → UInt8) (position : Nat) : UInt16 :=
  (siiBytesOf contents (UInt16.ofNat position)).toUInt16 +
    ((siiBytesOf contents (UInt16.ofNat position + 1)).toUInt16 <<< 8)

section Search

variable {contents : UInt16 → UInt8} {cat : UInt16}

theorem evaluate_word (position : Nat) :
    evaluate (siiBytesOf contents) (siiWord (UInt16.ofNat position)) =
      some (wordAt contents position) :=
  evaluate_siiWord _

theorem wordAt_behind {position : Nat} (beyond : 4096 ≤ position) (small : position + 1 < 65536) :
    wordAt contents position = 0xffff := by
  have limit : (4096 : UInt16).toNat = 4096 := rfl
  have low : ¬ UInt16.ofNat position < 4096 := by
    rw [UInt16.lt_iff_toNat_lt, UInt16.toNat_ofNat', limit]
    omega
  have high : ¬ UInt16.ofNat position + 1 < 4096 := by
    rw [UInt16.lt_iff_toNat_lt, UInt16.toNat_add, UInt16.toNat_ofNat', UInt16.toNat_one, limit]
    omega
  rw [wordAt, siiBytesOf, siiBytesOf, if_neg low, if_neg high]
  rfl

theorem traverse_turn (turns position : Nat) :
    evaluate (siiBytesOf contents)
        (traverse cat (turns + 1) (UInt16.ofNat (position + 2)) (wordAt contents position)) =
      if wordAt contents position ≠ cat ∧ wordAt contents position ≠ 0xffff then
        let next := position + 4 + 2 * (wordAt contents (position + 2)).toNat
        evaluate (siiBytesOf contents)
          (traverse cat turns (UInt16.ofNat (next + 2)) (wordAt contents next))
      else some (if wordAt contents position = cat then UInt16.ofNat (position + 2) else 0) := by
  have behindAt : behind (UInt16.ofNat (position + 2)) (wordAt contents (position + 2)) =
      UInt16.ofNat (position + 4 + 2 * (wordAt contents (position + 2)).toNat) := by
    have two : (2 : UInt16).toNat = 2 := rfl
    rw [← UInt16.toNat_inj, behind]
    simp only [UInt16.toNat_add, UInt16.toNat_shiftLeft, UInt16.toNat_ofNat', two,
      UInt16.toNat_one]
    simp only [Nat.reduceMod, Nat.shiftLeft_eq]
    omega
  have address (next : Nat) : UInt16.ofNat next + 2 = UInt16.ofNat (next + 2) :=
    (UInt16.ofNat_add next 2).symm
  rw [traverse]
  by_cases goesOn : wordAt contents position ≠ cat ∧ wordAt contents position ≠ 0xffff
  · rw [if_pos goesOn, if_pos goesOn, evaluate_bind, evaluate_word, Option.bind_some]
    simp only [behindAt, address]
    rw [evaluate_bind, evaluate_word, Option.bind_some]
  · rw [if_neg goesOn, if_neg goesOn, evaluate_pure]

/-- Where the length leads that is read behind the category at a position. -/
def nextSection (contents : UInt16 → UInt8) (position : Nat) : Nat :=
  (position + 4 + 2 * (wordAt contents (position + 2)).toNat) % 2 ^ 16

theorem ofNat_nextSection (position : Nat) : UInt16.ofNat (nextSection contents position) =
    UInt16.ofNat (position + 4 + 2 * (wordAt contents (position + 2)).toNat) := by
  rw [nextSection, ← UInt16.toNat_inj, UInt16.toNat_ofNat', UInt16.toNat_ofNat', Nat.mod_mod]

/-- From section to section, up to the first one of the category or the first `0xffff`. -/
inductive Leads (contents : UInt16 → UInt8) (cat : UInt16) : Nat → Nat → Prop where
  | stop {position : Nat} (here : wordAt contents position = cat ∨ wordAt contents position = 0xffff) :
      Leads contents cat position position
  | skip {position last : Nat} (other : wordAt contents position ≠ cat)
      (real : wordAt contents position ≠ 0xffff)
      (rest : Leads contents cat (nextSection contents position) last) :
      Leads contents cat position last

/-- The search from a position ends where the sections lead. -/
def Ends (contents : UInt16 → UInt8) (cat : UInt16) (turns position : Nat) : Prop :=
  ∃ last, Leads contents cat position last ∧
    evaluate (siiBytesOf contents)
        (traverse cat turns (UInt16.ofNat (position + 2)) (wordAt contents position)) =
      some (if wordAt contents last = cat then UInt16.ofNat (last + 2) else 0)

theorem ends_stop {turns position : Nat}
    (stops : wordAt contents position = cat ∨ wordAt contents position = 0xffff) :
    Ends contents cat (turns + 1) position := by
  refine ⟨position, .stop stops, (traverse_turn turns position).trans (if_neg ?_)⟩
  rintro ⟨other, real⟩
  exact stops.elim other real

theorem ends_skip {turns position : Nat} (other : wordAt contents position ≠ cat)
    (real : wordAt contents position ≠ 0xffff)
    (rest : Ends contents cat turns (nextSection contents position)) :
    Ends contents cat (turns + 1) position := by
  obtain ⟨last, leads, ran⟩ := rest
  refine ⟨last, .skip other real leads, ?_⟩
  have word : wordAt contents (nextSection contents position) =
      wordAt contents (position + 4 + 2 * (wordAt contents (position + 2)).toNat) := by
    rw [wordAt, wordAt, ofNat_nextSection]
  rw [word, UInt16.ofNat_add, ofNat_nextSection, ← UInt16.ofNat_add] at ran
  rw [traverse_turn, if_pos ⟨other, real⟩]
  exact ran

theorem ends_behind (turns : Nat) {position : Nat} (beyond : 4096 ≤ position)
    (small : position + 1 < 65536) : Ends contents cat (turns + 1) position :=
  ends_stop (.inr (wordAt_behind beyond small))

/-- A word that is no length is an end mark. -/
def Moderate (contents : UInt16 → UInt8) : Prop :=
  ∀ position < 4096, 2 ∣ position →
    (wordAt contents position).toNat < 30000 ∨ wordAt contents position = 0xffff

/-- A turn takes at least four bytes, or comes to the end mark that it read as a length. -/
theorem traverse_ends (moderate : Moderate contents) (left : Nat) :
    ∀ position : Nat, 2 ∣ position → position < 4096 → 4096 ≤ position + 4 * left →
      Ends contents cat (left + 3) position := by
  induction left with
  | zero =>
      intro position _ inside enough
      omega
  | succ left ih =>
      intro position even inside enough
      by_cases stops : wordAt contents position = cat ∨ wordAt contents position = 0xffff
      · exact ends_stop stops
      obtain ⟨other, real⟩ := not_or.mp stops
      refine ends_skip other real ?_
      have marked (mark : wordAt contents (position + 2) = 0xffff) :
          nextSection contents position = position + 2 := by
        have number : (wordAt contents (position + 2)).toNat = 65535 := by rw [mark]; rfl
        rw [nextSection, number]
        omega
      by_cases last : position + 2 < 4096
      · rcases moderate (position + 2) last (Nat.dvd_add even (Nat.dvd_refl 2)) with small | mark
        · have straight : nextSection contents position =
              position + 4 + 2 * (wordAt contents (position + 2)).toNat := by
            rw [nextSection]
            omega
          rw [straight]
          by_cases still : position + 4 + 2 * (wordAt contents (position + 2)).toNat < 4096
          · exact ih _ (by omega) still (by omega)
          · exact ends_behind (left + 2) (Nat.le_of_not_lt still) (by omega)
        · rw [marked mark]
          exact ends_stop (.inr mark)
      · have mark : wordAt contents (position + 2) = 0xffff :=
          wordAt_behind (Nat.le_of_not_lt last) (by omega)
        rw [marked mark]
        exact ends_stop (.inr mark)

theorem siifind_eq (turns : Nat) :
    evaluate (siiBytesOf contents) (siifind turns cat) =
      evaluate (siiBytesOf contents)
        (traverse cat turns (UInt16.ofNat (128 + 2)) (wordAt contents 128)) := by
  have first : evaluate (siiBytesOf contents) (siiWord siiStart) = some (wordAt contents 128) :=
    evaluate_word 128
  rw [siifind, evaluate_bind, first, Option.bind_some]
  rfl

/-- On any contents with moderate words, `ecx_siifind` goes from section to section and ends at
the first one of the category, or at the first `0xffff` without a result. -/
theorem siifind_ends (moderate : Moderate contents) (cat : UInt16) :
    ∃ last, Leads contents cat 128 last ∧
      evaluate (siiBytesOf contents) (siifind 995 cat) =
        some (if wordAt contents last = cat then UInt16.ofNat (last + 2) else 0) := by
  obtain ⟨last, leads, ran⟩ := @traverse_ends contents cat moderate 992 128 (by decide)
    (by decide) (by decide)
  exact ⟨last, leads, (siifind_eq 995).trans ran⟩

theorem driveContents_erased {position : Nat}
    (beyond : siiStart.toNat + (imageBytes driveParts).length ≤ position) (small : position < 65536) :
    siiBytesOf driveContents (UInt16.ofNat position) = 0xff := by
  have start : siiStart.toNat = 128 := rfl
  have number : (UInt16.ofNat position).toNat = position := by
    rw [UInt16.toNat_ofNat', Nat.mod_eq_of_lt small]
  have outside : ¬ UInt16.ofNat position < siiStart := by
    rw [UInt16.lt_iff_toNat_lt, number]
    omega
  have index : (UInt16.ofNat position - siiStart).toNat = position - 128 := by
    rw [UInt16.toNat_sub_of_le _ _ (UInt16.le_iff_toNat_le.mpr (by omega)), number, start]
  rw [siiBytesOf, driveContents, if_neg outside, index,
    List.getD_eq_default _ _ (by omega), ite_self]

theorem driveContents_moderate : Moderate driveContents := by
  intro position inside even
  have size : siiStart.toNat + (imageBytes driveParts).length = 194 := by decide
  by_cases written : position < 194
  · have checked : ∀ position < 194, 2 ∣ position →
        (wordAt driveContents position).toNat < 30000 ∨ wordAt driveContents position = 0xffff := by
      decide +kernel
    exact checked position written even
  · have next : UInt16.ofNat position + 1 = UInt16.ofNat (position + 1) :=
      (UInt16.ofNat_add position 1).symm
    right
    rw [wordAt, next, driveContents_erased (by omega) (by omega),
      driveContents_erased (by omega) (by omega)]
    rfl

/-- The sync managers of the drive stand behind three other sections. -/
theorem siifind_ends_drive :
    evaluate (siiBytesOf driveContents) (siifind 995 ectSiiSm) = some 0xa6 ∧
    ∃ last, Leads driveContents ectSiiSm 128 last ∧
      evaluate (siiBytesOf driveContents) (siifind 995 ectSiiSm) =
        some (if wordAt driveContents last = ectSiiSm then UInt16.ofNat (last + 2) else 0) :=
  ⟨by decide +kernel, siifind_ends driveContents_moderate ectSiiSm⟩

/-- A first section of `0x7ffe` words that is not looked for leads back to itself. -/
theorem siifind_endless (other : wordAt contents 128 ≠ cat) (real : wordAt contents 128 ≠ 0xffff)
    (length : wordAt contents 130 = 0x7ffe) :
    ∀ turns, evaluate (siiBytesOf contents) (siifind turns cat) = none := by
  intro turns
  rw [siifind_eq]
  induction turns with
  | zero => rfl
  | succ turns ih =>
      rw [traverse_turn, if_pos ⟨other, real⟩]
      simp only [length]
      exact ih

end Search

end WebserverEthercat.Eeprom
