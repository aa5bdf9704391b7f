import WebserverEthercat.Pdo.Json
import WebserverEthercat.Pdo.Page

/-!
# Which rows the server and the page see

Both go by what follows the first word of the type: the server needs a byte
there that is no space, the page a character that is no white space.
-/

set_option autoImplicit false

namespace WebserverEthercat

open CString Form WebText

namespace PdoRow

/-- There is something that `%127[^\n]` takes for a name. -/
def ServerSees (row : PdoRow) : Prop := ∃ byte ∈ row.named, isspace byte = false

/-- There is a fifth part. -/
def PageSees (row : PdoRow) : Prop :=
  ∃ character ∈ utf8Decode row.named, isWhiteSpace character = false

instance : DecidablePred ServerSees := fun row =>
  inferInstanceAs (Decidable (∃ byte ∈ row.named, isspace byte = false))

instance : DecidablePred PageSees := fun row =>
  inferInstanceAs (Decidable (∃ character ∈ utf8Decode row.named, isWhiteSpace character = false))

theorem not_serverSees {row : PdoRow} :
    ¬ row.ServerSees ↔ ∀ byte ∈ row.named, isspace byte = true := by
  simp [ServerSees]

theorem not_pageSees {row : PdoRow} :
    ¬ row.PageSees ↔ ∀ character ∈ utf8Decode row.named, isWhiteSpace character = true := by
  simp [PageSees]

/-- The page knows more white space than C. -/
theorem PageSees.serverSees {row : PdoRow} (sees : row.PageSees) : row.ServerSees := by
  by_contra unseen
  exact not_pageSees.mpr (whiteSpace_of_blank (not_serverSees.mp unseen)) sees

theorem described_of_serverSees {row : PdoRow} (sees : row.ServerSees) :
    ∃ description, row.description = some description := by
  cases described : row.description with
  | none =>
      obtain ⟨byte, member, -⟩ := sees
      rw [named_undescribed described] at member
      cases member
  | some description => exact ⟨description, rfl⟩

end PdoRow

/-! ## Rows that are not seen -/

/-- A row without a name ends with the first word of its type. -/
theorem serverSkips_nameless {row : PdoRow} {description : Description}
    (described : row.description = some description) (unseen : ¬ row.ServerSees)
    {line : Block} (holds : Holds line row.text) :
    ∃ trimmed, trimmedLine line = some trimmed ∧ (sscanf trimmed nameFormat).result ≠ 1 := by
  obtain ⟨word, gap, behind, wordToken, -, gapStarts, -⟩ := row.behind_described described
  have blank := PdoRow.not_serverSees.mp unseen
  rw [PdoRow.named_eq behind wordToken gapStarts] at blank
  refine ⟨row.address ++ 32 :: fromIndex row.objIdx.toNat row.objSubidx.toNat
    (row.bitLength ++ 32 :: word), ?_, ?_⟩
  · apply trimmedLine_of_holds [32, 32] (gap ++ description.name ++ [10]) (List.all_eq_true.mp rfl)
    · have whole := solid_append (show isspace 91 = false by decide) (row.address.tail ++ 32 ::
        fromIndex row.objIdx.toNat row.objSubidx.toNat (row.bitLength ++ [32])) wordToken.solid
      rw [row.address_eq, fromIndex] at whole ⊢
      simpa using whole
    · intro byte member
      rcases List.mem_append.mp member with named | newline
      · exact blank byte named
      · rw [List.mem_singleton.mp newline]
        decide
    · rw [row.text_eq, behind, fromIndex] at holds
      simpa [fromIndex] using holds
  · rw [nameFormat_nameless row.address_token row.bitLength_token wordToken]
    decide

theorem serverSkips {row : PdoRow} (unseen : ¬ row.ServerSees) {line : Block}
    (holds : Holds line row.text) :
    ∃ trimmed, trimmedLine line = some trimmed ∧ (sscanf trimmed nameFormat).result ≠ 1 := by
  cases described : row.description with
  | none =>
      obtain ⟨trimmed, trims, result, -⟩ := skipped_undescribed described holds
      exact ⟨trimmed, trims, by omega⟩
  | some description => exact serverSkips_nameless described unseen holds

theorem pageSkips {row : PdoRow} (unseen : ¬ row.PageSees) {line : Block}
    (holds : Holds line row.text) : ¬ 4 < (pageParts row.text.dropLast).length := by
  cases described : row.description with
  | none =>
      obtain ⟨-, -, -, parts⟩ := skipped_undescribed described holds
      omega
  | some description =>
      obtain ⟨word, gap, behind, wordToken, -, ⟨space, more, rfl, blank⟩, -, gapAscii, -⟩ :=
        row.behind_described described
      have white := PdoRow.not_pageSees.mp unseen
      rw [PdoRow.named_eq behind wordToken ⟨space, more, rfl, blank⟩, List.cons_append,
        utf8Decode_cons (gapAscii space List.mem_cons_self)] at white
      have nameless : words (utf8Decode (more ++ description.name)) = [] :=
        words_blank fun character member => white character (List.mem_cons_of_mem _ member)
      have parts := words_fromIndex row
        (row.bitLength ++ 32 :: (word ++ space :: (more ++ description.name)))
      rw [row.bitLength_token.words (by decide), wordToken.words blank, nameless] at parts
      have line : row.text.dropLast = [32, 32] ++ (row.address ++ 32 :: fromIndex row.objIdx.toNat
          row.objSubidx.toNat
          (row.bitLength ++ 32 :: (word ++ space :: (more ++ description.name)))) := by
        rw [row.text_eq, List.dropLast_concat, behind]
        rfl
      rw [pageParts, line, parts]
      simp

/-! ## Both loops -/

theorem rowFormat_starts {text : List UInt8} (reads : (sscanf text rowFormat).result = 4) :
    text.head? = some 91 := by
  cases text with
  | nil => revert reads; decide
  | cons byte rest =>
      by_cases bracket : byte = 91
      · rw [bracket]
        rfl
      · have fails : (Directive.literal 91).scan (byte :: rest) = .error .matching :=
          if_neg bracket
        rw [sscanf, rowFormat, scanFrom, fails] at reads
        exact absurd reads (by decide)

theorem ServerReads.line_eq {json : JsonC} {row : PdoRow} {trimmed : List UInt8} (reads : ServerReads row trimmed)
    (inputValue : List UInt8 → Int) (noHeading : ¬ inputsMarker <:+: trimmed)
    (noTitle : ¬ ascii "addr b   index: sub bitl data_type    name" <:+: trimmed)
    {reader : PdoReader json} (inside : reader.processLines = true) :
    reader.line inputValue trimmed = some { reader with
      jsonObj := json.objectAdd reader.jsonObj row.indexSub (inputValue row.indexSub) } := by
  obtain ⟨index, subindex, dataType, name, scanned, -, -, same, short, typeShort, -⟩ := reads.fields
  obtain ⟨read, named, -⟩ := reads.named
  have starts := rowFormat_starts (congrArg Scanned.result scanned)
  have nonempty : trimmed ≠ [] := by
    rintro rfl
    cases starts
  have row : rowRead trimmed = .row row.indexSub := by
    rw [rowRead, if_neg (by simp [noTitle, nonempty]), if_neg (by simp [named]), if_pos starts,
      scanned]
    simp only [same] at short ⊢
    rw [if_pos ⟨typeShort, short⟩]
  rw [PdoReader.line, PdoReader.lineThrough, if_neg noHeading, if_neg (by simp [inside]), row]
  rfl

end WebserverEthercat
