import WebserverEthercat.Pdo.RowReading

/-!
# Printed rows and read rows

A described row is accepted by both `sscanf` calls and split by the page with
the same object in its second word; a row without a description by neither.
-/

set_option autoImplicit false

namespace WebserverEthercat

open CString Form WebText

/-! ## The type -/

/-- The type is one word, or one word and the length behind a space. -/
theorem dtype2string_word (dtype bitlen : UInt16) :
    ∃ word rest, dtype2string dtype bitlen = word ++ rest ∧ Token word ∧ word.length ≤ 19 ∧
      StopsAt (fun byte => !isspace byte) rest ∧ rest.length ≤ 9 ∧ (∀ byte ∈ rest, byte < 0x80) ∧
      10 ∉ rest := by
  have digits := length_decimal_le (bitlen.toNat : Int) 5 (by omega)
    (by have := bitlen.toNat_lt; simp only [Int.natAbs_natCast]; omega)
  have parenthesis : Token (ascii ")") := ascii_token (by decide) (by decide)
  have number := decimal_token (bitlen.toNat : Int)
  have sized (text : String) (word : Token (ascii text)) :
      Token (ascii text ++ decimal (bitlen.toNat : Int) ++ ascii ")") :=
    (word.append number.visible number.ascii).append parenthesis.visible parenthesis.ascii
  unfold dtype2string
  split
  case h_22 =>
    refine ⟨_, [], (List.append_nil _).symm, sized _ (ascii_token (by decide) (by decide)), ?_,
      by simp [StopsAt], by simp, by simp, by simp⟩
    simp only [List.length_append]
    have : (ascii "VISIBLE_STR(").length = 12 ∧ (ascii ")").length = 1 := by decide
    omega
  case h_23 =>
    refine ⟨_, [], (List.append_nil _).symm, sized _ (ascii_token (by decide) (by decide)), ?_,
      by simp [StopsAt], by simp, by simp, by simp⟩
    simp only [List.length_append]
    have : (ascii "OCTET_STR(").length = 10 ∧ (ascii ")").length = 1 := by decide
    omega
  case h_24 =>
    have length := length_upperHex_le 4 4 dtype.toNat (by omega) dtype.toNat_lt
    have hex := upperHex_token 4 (by omega) dtype.toNat
    refine ⟨ascii "dt:0x" ++ upperHex 4 dtype.toNat,
      ascii " (" ++ decimal (bitlen.toNat : Int) ++ ascii ")", by simp only [List.append_assoc],
      (ascii_token (by decide) (by decide)).append hex.visible hex.ascii, ?_,
      StopsAt.cons (by decide) _, ?_, ?_, ?_⟩
    · simp only [List.length_append]
      have : (ascii "dt:0x").length = 5 := by decide
      omega
    · simp only [List.length_append]
      have : (ascii " (").length = 2 ∧ (ascii ")").length = 1 := by decide
      omega
    · have literals : (ascii " (").all (· < 0x80) ∧ (ascii ")").all (· < 0x80) := by decide
      simp only [List.all_eq_true, decide_eq_true_eq] at literals
      intro byte member
      rcases List.mem_append.mp member with first | last
      · exact (List.mem_append.mp first).elim (literals.1 byte) (number.ascii byte)
      · exact literals.2 byte last
    · have absent : 10 ∉ decimal (bitlen.toNat : Int) := fun member => by
        have visible := number.visible 10 member
        revert visible
        decide
      simp only [List.mem_append, not_or]
      exact ⟨⟨by decide, absent⟩, by decide⟩
  all_goals
    refine ⟨_, [], (List.append_nil _).symm, ascii_token (by decide) (by decide), by decide,
      by simp [StopsAt], by simp, by simp, by simp⟩

/-! ## The two `sscanf` calls -/

/-- The rest of a row from the index on. -/
def fromIndex (index subindex : Nat) (behind : List UInt8) : List UInt8 :=
  48 :: 120 :: (upperHex 4 index ++ 58 :: 48 :: 120 :: (upperHex 2 subindex ++ 32 :: behind))

theorem hex_stops {byte : UInt8} (outside : isxdigit byte = false) (rest : List UInt8) :
    StopsAt isxdigit (byte :: rest) :=
  StopsAt.cons outside rest

section Scan

variable {bitl word gap core : List UInt8} (bitlToken : Token bitl) (wordToken : Token word)
  (gapBlank : ∀ byte ∈ gap, isspace byte = true) (gapNonempty : gap ≠ [])
  (solid : Solid core) (short : core.length ≤ 127) (oneLine : 10 ∉ core)

include gapBlank gapNonempty in
theorem gap_stops (text : List UInt8) : StopsAt (fun byte => !isspace byte) (gap ++ text) := by
  obtain ⟨byte, rest, rfl⟩ := List.exists_cons_of_ne_nil gapNonempty
  exact StopsAt.cons (by simp [gapBlank byte]) _

include solid in
theorem solid_stops : StopsAt isspace core := by
  obtain ⟨byte, rest, same⟩ := List.exists_cons_of_ne_nil solid.nonempty
  rw [same]
  exact StopsAt.cons (solid.starts byte rest same) rest

include solid short oneLine in
theorem scan_name :
    (Directive.scanset true (some 127) (· ≠ 10)).scan core = .ok (some (.text core), []) := by
  have taken : ∀ byte ∈ core, decide (byte ≠ 10) = true := by
    intro byte member
    exact decide_eq_true (ne_of_mem_of_not_mem member oneLine)
  have scans := @Directive.scan_scanset true (some 127) (· ≠ 10) core [] solid.nonempty
    (by simpa using short) taken (by simp [StopsAt])
  simpa [Directive.assigned] using scans

theorem Token.stops {token : List UInt8} (isToken : Token token) (rest : List UInt8) :
    StopsAt isspace (token ++ rest) := by
  obtain ⟨byte, text, rfl⟩ := List.exists_cons_of_ne_nil isToken.nonempty
  exact StopsAt.cons (isToken.visible byte List.mem_cons_self) _

include bitlToken wordToken gapBlank gapNonempty solid short oneLine in
theorem nameFormat_accepts {address : List UInt8} (addressToken : Token address)
    (index subindex : Nat) :
    sscanf (address ++ 32 :: fromIndex index subindex (bitl ++ 32 :: (word ++ (gap ++ core))))
      nameFormat = ⟨1, [.text core]⟩ := by
  have space : ∀ rest, StopsAt (fun byte => !isspace byte) (32 :: rest) :=
    StopsAt.cons (by decide)
  rw [sscanf, nameFormat, fromIndex,
    scanFrom_ok (Directive.scan_word false addressToken.nonempty addressToken.visible (space _)),
    scanFrom_ok (Directive.scan_oneSpace (StopsAt.cons (by decide) _)),
    scanFrom_ok (Directive.scan_hex false (by omega) (hex_stops (by decide) _)),
    scanFrom_ok (Directive.scan_literal 58 _),
    scanFrom_ok (Directive.scan_hex false (by omega) (hex_stops (by decide) _)),
    scanFrom_ok (Directive.scan_oneSpace (bitlToken.stops _)),
    scanFrom_ok (Directive.scan_word false bitlToken.nonempty bitlToken.visible (space _)),
    scanFrom_ok (Directive.scan_oneSpace (wordToken.stops _)),
    scanFrom_ok (Directive.scan_word false wordToken.nonempty wordToken.visible
      (gap_stops gapBlank gapNonempty _)),
    scanFrom_ok (Directive.scan_space gapBlank (solid_stops solid)),
    scanFrom_ok (scan_name solid short oneLine)]
  rfl

include bitlToken wordToken gapBlank gapNonempty solid short oneLine in
theorem rowFormat_reads {offset bit : List UInt8} (offsetNonempty : offset ≠ [])
    (bitNonempty : bit ≠ []) (dotless : 46 ∉ offset) (bracketless : 93 ∉ bit)
    (index subindex : Nat) :
    sscanf (91 :: (offset ++ 46 :: (bit ++ 93 :: 32 ::
        fromIndex index subindex (bitl ++ 32 :: (word ++ (gap ++ core)))))) rowFormat =
      ⟨4, [.number (UInt32.ofNat index), .number (UInt32.ofNat subindex), .text word,
        .text core]⟩ := by
  have space : ∀ rest, StopsAt (fun byte => !isspace byte) (32 :: rest) :=
    StopsAt.cons (by decide)
  have member {stop : UInt8} {text : List UInt8} (absent : stop ∉ text) :
      ∀ byte ∈ text, decide (byte ≠ stop) = true := by
    intro byte inside
    simp only [ne_eq, decide_eq_true_eq]
    rintro rfl
    exact absent inside
  rw [sscanf, rowFormat, fromIndex,
    scanFrom_ok (Directive.scan_literal 91 _),
    scanFrom_ok (Directive.scan_scanset false offsetNonempty (by simp) (member dotless)
      (StopsAt.cons (by decide) _)),
    scanFrom_ok (Directive.scan_literal 46 _),
    scanFrom_ok (Directive.scan_scanset false bitNonempty (by simp) (member bracketless)
      (StopsAt.cons (by decide) _)),
    scanFrom_ok (Directive.scan_noSpace (StopsAt.cons (by decide) _)),
    scanFrom_ok (Directive.scan_literal 93 _),
    scanFrom_ok (Directive.scan_oneSpace (StopsAt.cons (by decide) _)),
    scanFrom_ok (Directive.scan_hex true (by omega) (hex_stops (by decide) _)),
    scanFrom_ok (Directive.scan_literal 58 _),
    scanFrom_ok (Directive.scan_hex true (by omega) (hex_stops (by decide) _)),
    scanFrom_ok (Directive.scan_oneSpace (bitlToken.stops _)),
    scanFrom_ok (Directive.scan_word false bitlToken.nonempty bitlToken.visible (space _)),
    scanFrom_ok (Directive.scan_oneSpace (wordToken.stops _)),
    scanFrom_ok (Directive.scan_word true wordToken.nonempty wordToken.visible
      (gap_stops gapBlank gapNonempty _)),
    scanFrom_ok (Directive.scan_space gapBlank (solid_stops solid)),
    scanFrom_ok (scan_name solid short oneLine)]
  rfl

/-- Without a type the input ends before the fourth word. -/
theorem nameFormat_refuses {address : List UInt8} (addressToken : Token address)
    (bitlToken : Token bitl) (index subindex : Nat) :
    sscanf (address ++ 32 :: fromIndex index subindex bitl) nameFormat = ⟨0, []⟩ := by
  have space : ∀ rest, StopsAt (fun byte => !isspace byte) (32 :: rest) :=
    StopsAt.cons (by decide)
  have atEnd (member : UInt8 → Bool) : StopsAt member [] := by simp [StopsAt]
  have bitlScan := Directive.scan_word false bitlToken.nonempty bitlToken.visible (atEnd _)
  have bitlStops := bitlToken.stops []
  rw [List.append_nil] at bitlScan bitlStops
  rw [sscanf, nameFormat, fromIndex,
    scanFrom_ok (Directive.scan_word false addressToken.nonempty addressToken.visible (space _)),
    scanFrom_ok (Directive.scan_oneSpace (StopsAt.cons (by decide) _)),
    scanFrom_ok (Directive.scan_hex false (by omega) (hex_stops (by decide) _)),
    scanFrom_ok (Directive.scan_literal 58 _),
    scanFrom_ok (Directive.scan_hex false (by omega) (hex_stops (by decide) _)),
    scanFrom_ok (Directive.scan_oneSpace bitlStops),
    scanFrom_ok bitlScan,
    scanFrom_ok (Directive.scan_noSpace (atEnd _))]
  exact scanFrom_input rfl _ _

/-- Behind a type without a name the input ends, too. -/
theorem nameFormat_nameless {address bitl word : List UInt8} (addressToken : Token address)
    (bitlToken : Token bitl) (wordToken : Token word) (index subindex : Nat) :
    sscanf (address ++ 32 :: fromIndex index subindex (bitl ++ 32 :: word)) nameFormat =
      ⟨0, []⟩ := by
  have space : ∀ rest, StopsAt (fun byte => !isspace byte) (32 :: rest) :=
    StopsAt.cons (by decide)
  have atEnd (member : UInt8 → Bool) : StopsAt member [] := by simp [StopsAt]
  have wordScan := Directive.scan_word false wordToken.nonempty wordToken.visible (atEnd _)
  have wordStops := wordToken.stops []
  rw [List.append_nil] at wordScan wordStops
  rw [sscanf, nameFormat, fromIndex,
    scanFrom_ok (Directive.scan_word false addressToken.nonempty addressToken.visible (space _)),
    scanFrom_ok (Directive.scan_oneSpace (StopsAt.cons (by decide) _)),
    scanFrom_ok (Directive.scan_hex false (by omega) (hex_stops (by decide) _)),
    scanFrom_ok (Directive.scan_literal 58 _),
    scanFrom_ok (Directive.scan_hex false (by omega) (hex_stops (by decide) _)),
    scanFrom_ok (Directive.scan_oneSpace (bitlToken.stops _)),
    scanFrom_ok (Directive.scan_word false bitlToken.nonempty bitlToken.visible (space _)),
    scanFrom_ok (Directive.scan_oneSpace wordStops),
    scanFrom_ok wordScan,
    scanFrom_ok (Directive.scan_noSpace (atEnd _))]
  exact scanFrom_input rfl _ _

end Scan

/-! ## The row -/

namespace PdoRow

def behind (row : PdoRow) : List UInt8 :=
  match row.description with
  | some description =>
      32 :: (leftJustified 12 (dtype2string description.dtype row.bitlen.toUInt16) ++
        32 :: description.name)
  | none => []

theorem text_eq (row : PdoRow) :
    row.text = [32, 32] ++ (row.address ++ 32 :: fromIndex row.objIdx.toNat row.objSubidx.toNat
      (row.bitLength ++ row.behind)) ++ [10] := by
  have literals : ascii "  " = [32, 32] ∧ ascii " " = [32] ∧ ascii "0x" = [48, 120] ∧
      ascii ":0x" = [58, 48, 120] ∧ ascii "\n" = [10] := by decide
  obtain ⟨indent, space, hex, second, newline⟩ := literals
  cases described : row.description <;>
    simp [text, behind, described, indexSub, fromIndex, indent, space, hex, second, newline]

theorem address_eq (row : PdoRow) :
    row.address = 91 :: (48 :: 120 :: upperHex 4 (unsignedInt row.absOffset) ++
      46 :: (decimal row.absBit ++ [93])) := by
  have literals : ascii "[0x" = [91, 48, 120] ∧ ascii "." = [46] ∧ ascii "]" = [93] := by decide
  obtain ⟨start, dot, stop⟩ := literals
  simp [address, start, dot, stop]

theorem address_token (row : PdoRow) : Token row.address := by
  have hex := upperHex_token 4 (by omega) (unsignedInt row.absOffset)
  have number := decimal_token row.absBit
  have dot : Token (ascii ".") := ascii_token (by decide) (by decide)
  have stop : Token (ascii "]") := ascii_token (by decide) (by decide)
  exact ((((ascii_token (by decide) (by decide)).append hex.visible hex.ascii).append dot.visible
    dot.ascii).append number.visible number.ascii).append stop.visible stop.ascii

theorem bitLength_token (row : PdoRow) : Token row.bitLength := by
  have hex := upperHex_token 2 (by omega) row.bitlen.toNat
  exact (ascii_token (by decide) (by decide)).append hex.visible hex.ascii

theorem indexSub_token (row : PdoRow) : Token row.indexSub := by
  have index := upperHex_token 4 (by omega) row.objIdx.toNat
  have subindex := upperHex_token 2 (by omega) row.objSubidx.toNat
  have colon : Token (ascii ":0x") := ascii_token (by decide) (by decide)
  exact (((ascii_token (by decide) (by decide)).append index.visible index.ascii).append
    colon.visible colon.ascii).append subindex.visible subindex.ascii

/-- Behind the length of a described row come the type, a gap and the name. -/
theorem behind_described {row : PdoRow} {description : Description}
    (described : row.description = some description) :
    ∃ word gap, row.behind = 32 :: (word ++ (gap ++ description.name)) ∧ Token word ∧
      word.length ≤ 19 ∧ (∃ space more, gap = space :: more ∧ isspace space = true) ∧
      gap.length ≤ 22 ∧ (∀ byte ∈ gap, byte < 0x80) ∧ 10 ∉ gap := by
  obtain ⟨word, rest, type, isToken, short, stops, restShort, ascii, oneLine⟩ :=
    dtype2string_word description.dtype row.bitlen.toUInt16
  refine ⟨word, rest ++ List.replicate (12 - (word ++ rest).length) 32 ++ [32], ?_, isToken, short,
    ?_, ?_, ?_, ?_⟩
  · simp [behind, described, leftJustified, type]
  · cases rest with
    | nil =>
        cases 12 - (word ++ []).length with
        | zero => exact ⟨32, [], rfl, rfl⟩
        | succ count => exact ⟨32, _, rfl, rfl⟩
    | cons byte rest =>
        have space := stops byte rfl
        exact ⟨byte, _, rfl, by simpa using space⟩
  · simp only [List.length_append, List.length_replicate, List.length_singleton]
    omega
  · intro byte member
    simp only [List.mem_append, List.mem_replicate, List.mem_singleton] at member
    rcases member with (text | ⟨-, rfl⟩) | rfl
    · exact ascii byte text
    · decide
    · decide
  · simp [oneLine]

def named (row : PdoRow) : List UInt8 := row.behind.tail.dropWhile (!isspace ·)

theorem named_eq {row : PdoRow} {word gap name : List UInt8}
    (behind : row.behind = 32 :: (word ++ (gap ++ name))) (isToken : Token word)
    (blank : ∃ space more, gap = space :: more ∧ isspace space = true) :
    row.named = gap ++ name := by
  obtain ⟨space, more, rfl, spaceBlank⟩ := blank
  have visible : ∀ byte ∈ word, (!isspace byte) = true := by
    intro byte member
    simp [isToken.visible byte member]
  rw [named, behind, List.tail_cons, List.dropWhile_append_of_pos visible, List.cons_append,
    List.dropWhile_cons_of_neg (by simp [spaceBlank])]

theorem named_undescribed {row : PdoRow} (undescribed : row.description = none) :
    row.named = [] := by
  simp [named, behind, undescribed]

end PdoRow

theorem trimmedLine_of_holds {line : Block} (lead : List UInt8) {core : List UInt8}
    (trail : List UInt8) (leadBlank : ∀ byte ∈ lead, isspace byte = true) (solid : Solid core)
    (trailBlank : ∀ byte ∈ trail, isspace byte = true)
    (holds : Holds line (lead ++ core ++ trail)) : trimmedLine line = some core := by
  obtain ⟨trimmed, success, trimmedHolds⟩ :=
    trimWhitespace_of_holds lead trail leadBlank solid trailBlank holds
  simp [trimmedLine, success, cstring_of_holds core _ trimmedHolds.drop]

theorem solid_append {first : UInt8} (visible : isspace first = false) (front : List UInt8)
    {core : List UInt8} (solid : Solid core) : Solid (first :: (front ++ core)) where
  nonempty := by simp
  starts byte rest same := by
    rw [← (List.cons.inj same).1]
    exact visible
  ends before byte same := by
    obtain ⟨init, last, lastIs⟩ : ∃ init last, core = init ++ [last] :=
      ⟨_, _, (List.dropLast_concat_getLast solid.nonempty).symm⟩
    have whole : (first :: (front ++ init)) ++ [last] = before ++ [byte] := by
      rw [← same, lastIs]
      simp
    rw [← List.singleton_inj.mp (List.append_inj_right' whole rfl)]
    exact solid.ends init last lastIs

/-- A name that fits its array, stands on one line and is not blank in the page. -/
structure ReadableName (name : List UInt8) : Prop where
  fits : name.length ≤ 40
  oneLine : 10 ∉ name
  visible : ∃ character ∈ utf8Decode name, isWhiteSpace character = false

theorem ReadableName.not_blank {name : List UInt8} (readable : ReadableName name) :
    ¬ ∀ byte ∈ name, isspace byte = true := by
  intro blank
  obtain ⟨character, member, visible⟩ := readable.visible
  rw [whiteSpace_of_blank blank character member] at visible
  cases visible

/-! ## Both readers -/

/-- The server takes the row, with its own object in `index_sub`, and stays within its arrays. -/
structure ServerReads (row : PdoRow) (trimmed : List UInt8) : Prop where
  named : ∃ name, sscanf trimmed nameFormat = ⟨1, [.text name]⟩ ∧ name.length < 128
  fields : ∃ index subindex dataType name,
    sscanf trimmed rowFormat =
      ⟨4, [.number index, .number subindex, .text dataType, .text name]⟩ ∧
    index.toNat = row.objIdx.toNat ∧ subindex.toNat = row.objSubidx.toNat ∧
    indexSubText index subindex = row.indexSub ∧ (indexSubText index subindex).length < 16 ∧
    dataType.length < 32 ∧ name.length < 128

/-- The page makes a field of the row, with its object as the second word. -/
structure PageReads (row : PdoRow) : Prop where
  field : 4 < (pageParts row.text.dropLast).length
  indexSub : (pageParts row.text.dropLast)[1]? = some (row.indexSub.map UInt8.toNat)

theorem indexSub_length (row : PdoRow) : row.indexSub.length < 16 := by
  have index := length_upperHex_le 4 4 row.objIdx.toNat (by omega) row.objIdx.toNat_lt
  have subindex := length_upperHex_le 2 2 row.objSubidx.toNat (by omega)
    row.objSubidx.toNat_lt
  have literals : (ascii "0x").length = 2 ∧ (ascii ":0x").length = 3 := by decide
  simp only [PdoRow.indexSub, List.length_append]
  omega

theorem not_blank_named {row : PdoRow} {description : Description}
    (described : row.description = some description) (readable : ReadableName description.name) :
    ¬ ∀ byte ∈ row.named, isspace byte = true := by
  obtain ⟨word, gap, behind, wordToken, -, gapStarts, -⟩ := row.behind_described described
  rw [PdoRow.named_eq behind wordToken gapStarts]
  exact fun blank => readable.not_blank fun byte member => blank byte (List.mem_append_right _ member)

theorem visible_named {row : PdoRow} {description : Description}
    (described : row.description = some description) (readable : ReadableName description.name) :
    ∃ character ∈ utf8Decode row.named, isWhiteSpace character = false := by
  obtain ⟨word, gap, behind, wordToken, -, gapStarts, -, gapAscii, -⟩ :=
    row.behind_described described
  obtain ⟨character, member, visible⟩ := readable.visible
  rw [PdoRow.named_eq behind wordToken gapStarts, utf8Decode_append gapAscii]
  exact ⟨character, List.mem_append_right _ member, visible⟩

/-- The trimmed row: the type's first word, a gap, and the rest up to its last visible byte. -/
theorem trimmed_described {row : PdoRow} {description : Description}
    (described : row.description = some description) (fits : description.name.length ≤ 40)
    (nameLine : 10 ∉ description.name) (visible : ¬ ∀ byte ∈ row.named, isspace byte = true)
    {line : Block} (holds : Holds line row.text) :
    ∃ word gap core,
      trimmedLine line = some (row.address ++ 32 :: fromIndex row.objIdx.toNat
        row.objSubidx.toNat (row.bitLength ++ 32 :: (word ++ (gap ++ core)))) ∧
      Token word ∧ word.length ≤ 19 ∧ (∀ byte ∈ gap, isspace byte = true) ∧ gap ≠ [] ∧
      Solid core ∧ core.length ≤ 62 ∧ 10 ∉ core := by
  obtain ⟨word, gap, behind, wordToken, wordShort, gapStarts, gapShort, -, gapOneLine⟩ :=
    row.behind_described described
  rw [PdoRow.named_eq behind wordToken gapStarts] at visible
  obtain ⟨space, more, gapIs, spaceBlank⟩ := gapStarts
  obtain ⟨lead, core, trail, split, leadBlank, solid, trailBlank⟩ := exists_solid visible
  have leadNonempty : lead ≠ [] := by
    rintro rfl
    obtain ⟨byte, rest, coreIs⟩ := List.exists_cons_of_ne_nil solid.nonempty
    rw [gapIs, coreIs] at split
    have first := solid.starts byte rest coreIs
    rw [← (List.cons.inj split).1, spaceBlank] at first
    cases first
  have size := congrArg List.length split
  simp only [List.length_append] at size
  have oneLine : 10 ∉ core := by
    intro member
    have inside : 10 ∈ gap ++ description.name := by
      rw [split]
      simp [member]
    exact (List.mem_append.mp inside).elim gapOneLine nameLine
  refine ⟨word, lead, core, ?_, wordToken, wordShort, leadBlank, leadNonempty, solid, by omega,
    oneLine⟩
  apply trimmedLine_of_holds [32, 32] (trail ++ [10]) (List.all_eq_true.mp rfl)
  · have whole := solid_append (show isspace 91 = false by decide) (row.address.tail ++ 32 :: fromIndex
      row.objIdx.toNat row.objSubidx.toNat (row.bitLength ++ 32 :: (word ++ lead))) solid
    rw [row.address_eq, fromIndex] at whole ⊢
    simpa using whole
  · intro byte member
    rcases List.mem_append.mp member with blank | newline
    · exact trailBlank byte blank
    · rw [List.mem_singleton.mp newline]
      decide
  · rw [row.text_eq, behind, split, fromIndex] at holds
    simpa [fromIndex] using holds

theorem serverReads_described {row : PdoRow} {description : Description}
    (described : row.description = some description) (fits : description.name.length ≤ 40)
    (nameLine : 10 ∉ description.name) (visible : ¬ ∀ byte ∈ row.named, isspace byte = true)
    {line : Block} (holds : Holds line row.text) :
    ∃ trimmed, trimmedLine line = some trimmed ∧ ServerReads row trimmed := by
  obtain ⟨word, gap, core, trims, wordToken, wordShort, gapBlank, gapNonempty, solid, short,
    oneLine⟩ := trimmed_described described fits nameLine visible holds
  refine ⟨_, trims, ?_, ?_⟩
  · refine ⟨core, ?_, by omega⟩
    exact nameFormat_accepts row.bitLength_token wordToken gapBlank gapNonempty solid (by omega)
      oneLine row.address_token _ _
  · have index : (UInt32.ofNat row.objIdx.toNat).toNat = row.objIdx.toNat := by
      have := row.objIdx.toNat_lt
      rw [UInt32.toNat_ofNat']
      omega
    have subindex : (UInt32.ofNat row.objSubidx.toNat).toNat = row.objSubidx.toNat := by
      have := row.objSubidx.toNat_lt
      rw [UInt32.toNat_ofNat']
      omega
    have same : indexSubText (UInt32.ofNat row.objIdx.toNat) (UInt32.ofNat row.objSubidx.toNat) =
        row.indexSub := by
      rw [indexSubText, index, subindex, PdoRow.indexSub]
    refine ⟨_, _, word, core, ?_, index, subindex, same, same ▸ indexSub_length row, by omega,
      by omega⟩
    have dotless : 46 ∉ 48 :: 120 :: upperHex 4 (PdoRow.unsignedInt row.absOffset) := by
      intro member
      have digit : isxdigit 46 = true := isxdigit_upperHex (by simpa using member)
      revert digit
      decide
    have bracketless : 93 ∉ decimal row.absBit := by
      intro member
      rcases mem_decimal member with minus | digit
      · revert minus
        decide
      · revert digit
        decide
    have reads := rowFormat_reads row.bitLength_token wordToken gapBlank gapNonempty solid
      (by omega) oneLine (List.cons_ne_nil _ _) (decimal_ne_nil row.absBit) dotless bracketless
      row.objIdx.toNat row.objSubidx.toNat
    rw [row.address_eq]
    simpa using reads

theorem words_fromIndex (row : PdoRow) (behind : List UInt8) :
    words (utf8Decode ([32, 32] ++ (row.address ++ 32 :: fromIndex row.objIdx.toNat
      row.objSubidx.toNat behind))) =
      row.address.map UInt8.toNat :: row.indexSub.map UInt8.toNat :: words (utf8Decode behind) := by
  have indexSub : fromIndex row.objIdx.toNat row.objSubidx.toNat behind =
      row.indexSub ++ 32 :: behind := by
    have literals : ascii "0x" = [48, 120] ∧ ascii ":0x" = [58, 48, 120] := by decide
    simp [fromIndex, PdoRow.indexSub, literals.1, literals.2]
  have indent (text : List Nat) : words ([32, 32].map UInt8.toNat ++ text) = words text := by
    have space : isWhiteSpace 32 = true := by decide
    exact (words_space space _).trans (words_space space _)
  rw [@utf8Decode_append [32, 32] (by simp), indexSub, indent,
    row.address_token.words (by decide), row.indexSub_token.words (by decide)]

theorem pageReads_described {row : PdoRow} {description : Description}
    (described : row.description = some description)
    (visible : ∃ character ∈ utf8Decode row.named, isWhiteSpace character = false) :
    PageReads row := by
  obtain ⟨word, gap, behind, wordToken, -, ⟨space, more, rfl, blank⟩, -, gapAscii, -⟩ :=
    row.behind_described described
  have low : space < 0x80 := gapAscii space List.mem_cons_self
  have spaceWhite : isWhiteSpace space.toNat = true := by rw [whiteSpace_of_ascii low, blank]
  have line : row.text.dropLast = [32, 32] ++ (row.address ++ 32 :: fromIndex row.objIdx.toNat
      row.objSubidx.toNat (row.bitLength ++ 32 :: (word ++ space :: (more ++ description.name)))) := by
    rw [row.text_eq, List.dropLast_concat, behind]
    rfl
  obtain ⟨character, member, shown⟩ := visible
  have named : words (utf8Decode (more ++ description.name)) ≠ [] := by
    apply @words_ne_nil _ character _ shown
    rw [PdoRow.named_eq behind wordToken ⟨space, more, rfl, blank⟩, List.cons_append,
      utf8Decode_cons low] at member
    rcases List.mem_cons.mp member with rfl | later
    · rw [spaceWhite] at shown
      cases shown
    · exact later
  have parts := words_fromIndex row
    (row.bitLength ++ 32 :: (word ++ space :: (more ++ description.name)))
  obtain ⟨first, rest, nonempty⟩ := List.exists_cons_of_ne_nil named
  rw [row.bitLength_token.words (by decide), wordToken.words blank, nonempty] at parts
  constructor
  · rw [pageParts, line, parts]
    simp
  · rw [pageParts, line, parts]
    rfl

theorem skipped_undescribed {row : PdoRow} (undescribed : row.description = none)
    {line : Block} (holds : Holds line row.text) :
    ∃ trimmed, trimmedLine line = some trimmed ∧ (sscanf trimmed nameFormat).result = 0 ∧
      (pageParts row.text.dropLast).length = 3 := by
  have text : row.text = [32, 32] ++ (row.address ++ 32 :: fromIndex row.objIdx.toNat
      row.objSubidx.toNat row.bitLength) ++ [10] := by
    rw [row.text_eq, PdoRow.behind, undescribed, List.append_nil]
  refine ⟨_, trimmedLine_of_holds [32, 32] [10] (List.all_eq_true.mp rfl) ?_
    (List.all_eq_true.mp rfl) (text ▸ holds), ?_, ?_⟩
  · have whole := solid_append (show isspace 91 = false by decide) (row.address.tail ++ 32 :: fromIndex
      row.objIdx.toNat row.objSubidx.toNat []) row.bitLength_token.solid
    rw [row.address_eq, fromIndex] at whole ⊢
    simpa using whole
  · rw [nameFormat_refuses row.address_token row.bitLength_token]
  · rw [pageParts, text, List.dropLast_concat, words_fromIndex,
      row.bitLength_token.words_last]
    rfl

theorem row_length {row : PdoRow} (low : 0 ≤ row.absBit) (high : row.absBit ≤ 7)
    (fits : ∀ description, row.description = some description → description.name.length ≤ 40) :
    row.text.length < 256 := by
  have offset := length_upperHex_le 4 8 (PdoRow.unsignedInt row.absOffset) (by omega) (by
      rw [PdoRow.unsignedInt]
      omega)
  have bit := length_decimal_le row.absBit 1 (by omega) (by omega)
  have bitl := length_upperHex_le 2 2 row.bitlen.toNat (by omega) row.bitlen.toNat_lt
  have indexSub := indexSub_length row
  have literals : (ascii "  ").length = 2 ∧ (ascii " ").length = 1 ∧ (ascii "[0x").length = 3 ∧
      (ascii ".").length = 1 ∧ (ascii "]").length = 1 ∧ (ascii "0x").length = 2 ∧
      (ascii "\n").length = 1 := by decide
  cases described : row.description with
  | none =>
      simp only [PdoRow.text, PdoRow.address, PdoRow.bitLength, described, List.length_append,
        List.length_nil]
      omega
  | some description =>
      obtain ⟨word, rest, type, -, short, -, restShort, -, -⟩ :=
        dtype2string_word description.dtype row.bitlen.toUInt16
      have name := fits description described
      have length := congrArg List.length type
      simp only [List.length_append] at length
      simp only [PdoRow.text, PdoRow.address, PdoRow.bitLength, described, List.length_append,
        leftJustified, List.length_replicate]
      omega

/-- Printing and reading of rows are inverse: a described row is read by the server and by the
page as its own object, and a row without a description is skipped by both. -/
theorem rows_read_back {row : PdoRow} (low : 0 ≤ row.absBit) (high : row.absBit ≤ 7)
    (readable : ∀ description, row.description = some description → ReadableName description.name)
    {line : Block} (holds : Holds line row.text) :
    row.text.length < 256 ∧ ∃ trimmed, trimmedLine line = some trimmed ∧
      (row.description ≠ none → ServerReads row trimmed ∧ PageReads row) ∧
      (row.description = none → (sscanf trimmed nameFormat).result ≠ 1 ∧
        ¬ 4 < (pageParts row.text.dropLast).length) := by
  refine ⟨row_length low high fun description described => (readable description described).fits, ?_⟩
  cases described : row.description with
  | none =>
      obtain ⟨trimmed, trims, refuses, parts⟩ := skipped_undescribed described holds
      exact ⟨trimmed, trims, by simp, fun _ => ⟨by omega, by omega⟩⟩
  | some description =>
      have name := readable description described
      obtain ⟨trimmed, trims, reads⟩ := serverReads_described described name.fits name.oneLine
        (not_blank_named described name) holds
      exact ⟨trimmed, trims, fun _ => ⟨reads,
        pageReads_described described (visible_named described name)⟩, by simp⟩

/-- A row with a type of two words. -/
def vendorRow : PdoRow := ⟨-1, 7, 0x6041, 0, 255, some ⟨0x0800, ascii "Status (word)"⟩⟩

theorem rows_read_back_vendorRow :
    vendorRow.text.length < 256 ∧
      ∃ trimmed, trimmedLine (terminated vendorRow.text) = some trimmed ∧
        (vendorRow.description ≠ none → ServerReads vendorRow trimmed ∧ PageReads vendorRow) ∧
        (vendorRow.description = none → (sscanf trimmed nameFormat).result ≠ 1 ∧
          ¬ 4 < (pageParts vendorRow.text.dropLast).length) :=
  rows_read_back (by decide) (by decide)
    (by
      intro description described
      obtain rfl := Option.some.inj described
      exact ⟨by decide, by decide, 83, by decide, by decide⟩)
    (holds_terminated (by decide +kernel))

end WebserverEthercat
