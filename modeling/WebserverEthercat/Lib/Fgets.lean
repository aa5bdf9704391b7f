import Mathlib.Data.List.Infix
import WebserverEthercat.Lib.CString

/-!
# Reading a text file line by line

`fgetsAll size` are the pieces that `fgets(line, size, file)` returns one after
another: each ends with a line feed, after `size - 1` bytes or with the file.
Texts that end with a line feed are read one after the other.
-/

set_option autoImplicit false

namespace CString

/-- The pieces of a file, the first of which goes on with `line` and has room for `room` bytes. -/
def fgetsFrom (limit : Nat) : Nat → List UInt8 → List UInt8 → List (List UInt8)
  | _, [], [] => []
  | _, byte :: line, [] => [byte :: line]
  | room, line, byte :: rest =>
      if byte = 10 ∨ room ≤ 1 then (line ++ [byte]) :: fgetsFrom limit limit [] rest
      else fgetsFrom limit (room - 1) (line ++ [byte]) rest

def fgetsAll (size : Nat) (file : List UInt8) : List (List UInt8) :=
  fgetsFrom (size - 1) (size - 1) [] file

/-- The text is empty or ends with a line feed. -/
def Complete (text : List UInt8) : Prop := text = [] ∨ ∃ line, text = line ++ [10]

theorem complete_append (front : List UInt8) {tail : List UInt8} (ends : tail.getLast? = some 10) :
    Complete (front ++ tail) := by
  obtain ⟨line, rfl⟩ := List.getLast?_eq_some_iff.mp ends
  exact .inr ⟨front ++ line, (List.append_assoc ..).symm⟩

theorem fgetsFrom_flatten (limit : Nat) (file : List UInt8) :
    ∀ (room : Nat) (line : List UInt8), (fgetsFrom limit room line file).flatten = line ++ file := by
  induction file with
  | nil =>
      intro room line
      cases line <;> simp [fgetsFrom]
  | cons byte file ih =>
      intro room line
      cases line <;> simp only [fgetsFrom] <;> split <;> simp [ih]

@[simp] theorem fgetsAll_flatten (size : Nat) (file : List UInt8) :
    (fgetsAll size file).flatten = file :=
  fgetsFrom_flatten ..

theorem fgetsFrom_line (limit : Nat) (rest line : List UInt8) :
    ∀ (room : Nat) (front : List UInt8),
      fgetsFrom limit room front (line ++ 10 :: rest) =
        fgetsFrom limit room front (line ++ [10]) ++ fgetsFrom limit limit [] rest := by
  induction line with
  | nil =>
      intro room front
      cases front <;> simp [fgetsFrom]
  | cons byte line ih =>
      intro room front
      simp only [List.cons_append]
      cases front <;> simp only [fgetsFrom] <;> split <;> simp [ih]

theorem fgetsAll_append {size : Nat} {text : List UInt8} (complete : Complete text)
    (rest : List UInt8) : fgetsAll size (text ++ rest) = fgetsAll size text ++ fgetsAll size rest := by
  rcases complete with rfl | ⟨line, rfl⟩
  · rfl
  · rw [List.append_assoc, List.singleton_append]
    exact fgetsFrom_line ..

theorem fgetsAll_flatMap {size : Nat} {texts : List (List UInt8)}
    (complete : ∀ text ∈ texts, Complete text) :
    fgetsAll size texts.flatten = texts.flatMap (fgetsAll size) := by
  induction texts with
  | nil => rfl
  | cons text texts ih =>
      rw [List.flatten_cons, fgetsAll_append (complete text List.mem_cons_self),
        ih fun other member => complete other (List.mem_cons_of_mem _ member), List.flatMap_cons]

theorem fgetsFrom_short (limit : Nat) (line : List UInt8) (oneLine : 10 ∉ line) :
    ∀ (room : Nat) (front : List UInt8), line.length < room →
      fgetsFrom limit room front (line ++ [10]) = [front ++ line ++ [10]] := by
  induction line with
  | nil =>
      intro room front fits
      cases front <;> simp [fgetsFrom]
  | cons byte line ih =>
      intro room front fits
      simp only [List.mem_cons, not_or] at oneLine
      simp only [List.length_cons] at fits
      have goesOn : ¬ (byte = 10 ∨ room ≤ 1) := by
        rintro (newline | full)
        · exact oneLine.1 newline.symm
        · omega
      have later := ih oneLine.2 (room - 1) (front ++ [byte]) (by omega)
      rw [List.cons_append]
      cases front <;> simpa [fgetsFrom, goesOn] using later

theorem fgetsAll_short (size : Nat) {line : List UInt8} (oneLine : 10 ∉ line)
    (fits : line.length + 1 < size) : fgetsAll size (line ++ [10]) = [line ++ [10]] :=
  fgetsFrom_short _ line oneLine _ [] (by omega)

theorem fgetsAll_within {size : Nat} {file piece : List UInt8} (member : piece ∈ fgetsAll size file) :
    piece <:+: file := by
  have inside := List.infix_of_mem_flatten member
  rwa [fgetsAll_flatten] at inside

theorem mem_of_within {marker text : List UInt8} (inside : marker <:+: text) {byte : UInt8}
    (member : byte ∈ marker) : byte ∈ text :=
  inside.subset member

/-- A marker that ends before the last byte. -/
theorem within_of_concat {marker text : List UInt8} {byte : UInt8} (absent : byte ∉ marker)
    (inside : marker <:+: text ++ [byte]) : marker <:+: text := by
  rcases List.infix_concat_iff.mp inside with atEnd | before
  · rcases List.suffix_concat_iff.mp atEnd with rfl | ⟨line, rfl, -⟩
    · exact List.nil_infix
    · simp at absent
  · exact before

/-- A marker that starts behind the first text. -/
theorem within_of_behind {head : UInt8} {marker before text : List UInt8} (absent : head ∉ before)
    (inside : head :: marker <:+: before ++ text) : head :: marker <:+: text := by
  induction before with
  | nil => exact inside
  | cons byte before ih =>
      simp only [List.mem_cons, not_or] at absent
      rcases List.infix_cons_iff.mp inside with atStart | later
      · exact absurd (List.cons_prefix_cons.mp atStart).1 absent.1
      · exact ih absent.2 later

end CString
