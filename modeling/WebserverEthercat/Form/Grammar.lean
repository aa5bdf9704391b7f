import WebserverEthercat.Form.PostData

/-!
# The form grammar

A body is a sequence of pieces between `&`, and a piece with an `=` is a pair.
The scan looks for the `=` of a pair behind pieces that have none, so it agrees
with the grammar exactly when no such piece comes before a pair.
-/

set_option autoImplicit false

namespace WebserverEthercat.Form

open CString

/-- The pair of a piece, split at its first `=`. -/
def splitPiece (piece : List UInt8) : Option (List UInt8 × List UInt8) :=
  if equalsSign ∈ piece then
    some (plusToSpace (piece.takeWhile (· ≠ equalsSign)),
      (piece.dropWhile (· ≠ equalsSign)).tail)
  else none

def formPairs (body : List UInt8) : List (List UInt8 × List UInt8) :=
  (body.splitOn ampersand).filterMap splitPiece

/-- No piece without `=` comes before a piece with `=`. -/
def BarePiecesLast (body : List UInt8) : Prop :=
  (body.splitOn ampersand).Pairwise fun earlier later =>
    equalsSign ∈ later → equalsSign ∈ earlier

/-- What `parse_post_data` hands over, read as strings. -/
def recordPair (pairs : List (List UInt8 × List UInt8)) (key value : Block) :
    Option (List (List UInt8 × List UInt8)) := do
  let keyText ← cstring key
  let valueText ← cstring value
  some (pairs ++ [(keyText, valueText)])

/-! ## Pieces -/

theorem splitPiece_pair {key : List UInt8} (keyEnds : equalsSign ∉ key) (value : List UInt8) :
    splitPiece (key ++ equalsSign :: value) = some (plusToSpace key, value) := by
  obtain ⟨taken, dropped⟩ := takeWhile_stop keyEnds value
  rw [splitPiece, if_pos (by simp), taken, dropped, List.tail_cons]

theorem splitPiece_bare {piece : List UInt8} (bare : equalsSign ∉ piece) :
    splitPiece piece = none := by
  rw [splitPiece, if_neg bare]

theorem mem_plusToSpace {byte : UInt8} (notPlus : byte ≠ plusSign) (notSpace : byte ≠ 32)
    (text : List UInt8) : byte ∈ plusToSpace text ↔ byte ∈ text := by
  simp only [plusToSpace, List.mem_map]
  constructor
  · rintro ⟨other, member, same⟩
    by_cases plus : other = plusSign
    · rw [if_pos plus] at same
      exact absurd same.symm notSpace
    · rw [if_neg plus] at same
      exact same ▸ member
  · intro member
    exact ⟨byte, member, if_neg notPlus⟩

theorem splitOn_cases (body : List UInt8) :
    (ampersand ∉ body ∧ body.splitOn ampersand = [body]) ∨
      ∃ piece rest, ampersand ∉ piece ∧ body = piece ++ ampersand :: rest ∧
        body.splitOn ampersand = piece :: rest.splitOn ampersand := by
  by_cases separated : ampersand ∈ body
  · obtain ⟨piece, rest, rfl, absent⟩ := List.eq_append_cons_of_mem separated
    exact .inr ⟨piece, rest, absent, rfl, List.splitOn_append_cons_self_of_not_mem absent rest⟩
  · exact .inl ⟨separated, List.splitOn_eq_singleton separated⟩

theorem mem_pieces (byte : UInt8) (body : List UInt8) :
    (∃ piece ∈ body.splitOn ampersand, byte ∈ piece) ↔ byte ∈ body ∧ byte ≠ ampersand := by
  induction sized : body.length using Nat.strong_induction_on generalizing body with
  | _ size ih =>
      rcases splitOn_cases body with ⟨whole, pieces⟩ | ⟨piece, rest, absent, rfl, pieces⟩
      · rw [pieces]
        simp only [List.mem_singleton, exists_eq_left]
        constructor
        · intro member
          exact ⟨member, fun same => whole (same ▸ member)⟩
        · intro member
          exact member.1
      · have shorter : rest.length < size := by
          rw [← sized]
          simp only [List.length_append, List.length_cons]
          omega
        have later := ih rest.length shorter rest rfl
        rw [pieces]
        simp only [List.mem_cons, exists_eq_or_imp, later, List.mem_append]
        constructor
        · rintro (member | ⟨member, other⟩)
          · exact ⟨.inl member, fun same => absent (same ▸ member)⟩
          · exact ⟨.inr (.inr member), other⟩
        · rintro ⟨member | same | member, other⟩
          · exact .inl member
          · exact absurd same other
          · exact .inr ⟨member, other⟩

theorem ampersand_not_in_key {body : List UInt8} {pair : List UInt8 × List UInt8}
    (member : pair ∈ formPairs body) : ampersand ∉ pair.1 := by
  intro present
  obtain ⟨piece, here, split⟩ := List.mem_filterMap.mp member
  by_cases assigns : equalsSign ∈ piece
  · obtain ⟨key, value, rfl, keyEnds⟩ := List.eq_append_cons_of_mem assigns
    rw [splitPiece_pair keyEnds] at split
    cases Option.some.inj split
    have inKey := (mem_plusToSpace (by decide) (by decide) key).mp present
    exact ((mem_pieces ampersand body).mp ⟨_, here, List.mem_append_left _ inKey⟩).2 rfl
  · rw [splitPiece_bare assigns] at split
    cases split

theorem formPairs_eq_nil_iff (body : List UInt8) : formPairs body = [] ↔ equalsSign ∉ body := by
  rw [formPairs, List.filterMap_eq_nil_iff]
  constructor
  · intro bare present
    obtain ⟨piece, here, assigns⟩ := (mem_pieces equalsSign body).mpr ⟨present, by decide⟩
    have none := bare piece here
    rw [splitPiece, if_pos assigns] at none
    cases none
  · intro bare piece here
    apply splitPiece_bare
    intro assigns
    exact bare ((mem_pieces equalsSign body).mp ⟨piece, here, assigns⟩).1

theorem barePiecesLast_bare {body : List UInt8} (bare : equalsSign ∉ body) :
    BarePiecesLast body := by
  apply List.pairwise_of_forall_mem_list
  intro earlier _ later here assigns
  exact absurd ((mem_pieces equalsSign body).mp ⟨later, here, assigns⟩).1 bare

/-! ## The scan and the grammar -/

theorem scan_with_bare_piece {key tail : List UInt8} (keyEnds : equalsSign ∉ key)
    (separated : ampersand ∈ key) (value : List UInt8) (later : List (List UInt8 × List UInt8)) :
    ((plusToSpace key, value) :: later = formPairs (key ++ equalsSign :: tail) ↔
      BarePiecesLast (key ++ equalsSign :: tail)) := by
  constructor
  · intro same
    have member : (plusToSpace key, value) ∈ formPairs (key ++ equalsSign :: tail) := by
      rw [← same]
      exact List.mem_cons_self
    exact absurd ((mem_plusToSpace (by decide) (by decide) key).mpr separated)
      (ampersand_not_in_key member)
  · intro last
    obtain ⟨piece, rest, rfl, absent⟩ := List.eq_append_cons_of_mem separated
    rw [BarePiecesLast, List.append_assoc, List.cons_append,
      List.splitOn_append_cons_self_of_not_mem absent] at last
    obtain ⟨pair, here, assigns⟩ := (mem_pieces equalsSign (rest ++ equalsSign :: tail)).mpr
      ⟨by simp, by decide⟩
    have inPiece := (List.pairwise_cons.mp last).1 pair here assigns
    exact absurd (List.mem_append_left _ inPiece) keyEnds

theorem scanPairs_eq_formPairs_iff (body : List UInt8) :
    scanPairs body = formPairs body ↔ BarePiecesLast body := by
  induction body using scan_induction with
  | absent body bare =>
      simp only [scanPairs_absent bare, (formPairs_eq_nil_iff body).mpr bare,
        barePiecesLast_bare bare]
  | last key value keyEnds valueEnds =>
      rw [scanPairs_last keyEnds valueEnds]
      by_cases separated : ampersand ∈ key
      · exact scan_with_bare_piece keyEnds separated value []
      · have whole : ampersand ∉ key ++ equalsSign :: value := by
          have other : ampersand ≠ equalsSign := by decide
          simp [separated, valueEnds, other]
        rw [formPairs, BarePiecesLast, List.splitOn_eq_singleton whole]
        simp [splitPiece_pair keyEnds]
  | more key value rest keyEnds valueEnds ih =>
      rw [scanPairs_cons keyEnds valueEnds]
      by_cases separated : ampersand ∈ key
      · exact scan_with_bare_piece keyEnds separated value _
      · have whole : ampersand ∉ key ++ equalsSign :: value := by
          have other : ampersand ≠ equalsSign := by decide
          simp [separated, valueEnds, other]
        have pieces : (key ++ equalsSign :: (value ++ ampersand :: rest)).splitOn ampersand =
            (key ++ equalsSign :: value) :: rest.splitOn ampersand := by
          have split := List.splitOn_append_cons_self_of_not_mem whole rest
          simpa only [List.append_assoc, List.cons_append] using split
        rw [formPairs, BarePiecesLast, pieces, List.pairwise_cons,
          List.filterMap_cons_some (splitPiece_pair keyEnds value)]
        have here : ∀ later ∈ rest.splitOn ampersand,
            equalsSign ∈ later → equalsSign ∈ key ++ equalsSign :: value := by
          intro _ _ _
          simp
        rw [List.cons.injEq]
        exact ⟨fun same => ⟨here, ih.mp same.2⟩, fun last => ⟨rfl, ih.mpr last.2⟩⟩

/-! ## What the parser hands over -/

theorem recordPair_reads :
    Reads recordPair fun pairs pair => some (pairs ++ [pair]) := by
  intro pairs keyBlock valueBlock key value keyHolds valueHolds
  simp [recordPair, cstring_of_holds key keyBlock keyHolds,
    cstring_of_holds value valueBlock valueHolds]

theorem foldlM_record (pairs : List (List UInt8 × List UInt8)) :
    ∀ before, pairs.foldlM (fun pairs pair => some (pairs ++ [pair])) before =
      some (before ++ pairs) := by
  induction pairs with
  | nil => intro before; simp
  | cons pair pairs ih =>
      intro before
      simp [ih]

/-- For every body, the pairs are those of the grammar exactly when the copy of
the body could be made, or was not needed, and no piece without `=` comes
before a pair. -/
theorem parsed_pairs_are_form_pairs_iff (body : List UInt8) (postData : Block)
    (holds : Holds postData body) (strdupOk : Bool) :
    parsePostData recordPair strdupOk postData [] = some (formPairs body) ↔
      (strdupOk = true ∨ equalsSign ∉ body) ∧ BarePiecesLast body := by
  rw [parsePostData_eq_scanPairs recordPair_reads strdupOk holds]
  cases strdupOk with
  | true =>
      simp only [if_true, foldlM_record, List.nil_append, Option.some.injEq, true_or, true_and]
      exact scanPairs_eq_formPairs_iff body
  | false =>
      simp only [Bool.false_eq_true, if_false, Option.some.injEq, false_or]
      rw [eq_comm, formPairs_eq_nil_iff]
      exact ⟨fun bare => ⟨bare, barePiecesLast_bare bare⟩, fun both => both.1⟩

theorem parsed_pairs_are_form_pairs_iff_two_pairs :
    parsePostData recordPair true (terminated (ascii "a+b=1&c=2")) [] =
      some (formPairs (ascii "a+b=1&c=2")) :=
  (parsed_pairs_are_form_pairs_iff _ _ (holds_terminated (by decide)) true).mpr
    ⟨.inl rfl, by unfold BarePiecesLast; decide⟩

/-- In `a&b=1` the scan takes `a&b` for the key. -/
theorem bare_piece_joins_key :
    ¬ parsePostData recordPair true (terminated (ascii "a&b=1")) [] =
      some (formPairs (ascii "a&b=1")) := by
  decide

end WebserverEthercat.Form
