import Mathlib.Data.List.Basic
import WebserverEthercat.Dump.ObjectDictionary

/-!
# Which error is printed for an entry

Errors are dropped before the entries of an object, not between them.  So the
flag that one failing read leaves behind is seen by the next one, and only that
one clears it.  Within an object the printed texts are right exactly when the
failing reads are the last ones, each raises an error, and the read of the
highest subindex leaves none behind.
-/

set_option autoImplicit false

namespace WebserverEthercat

variable {Error : Type} (floats : FloatTexts)

/-! ## The reading order -/

namespace DictObject

variable (object : DictObject Error)

def Readable (j : Nat) : Prop :=
  ((object.entries j).dataType > 0 ∧ (object.entries j).bitLength > 0) ∧
    (object.entries j).objAccess &&& 0x0007 ≠ 0

instance (j : Nat) : Decidable (object.Readable j) := inferInstanceAs (Decidable (_ ∧ _))

/-- The highest subindex that the object has. -/
def highest : UInt8 :=
  if object.objectCode ≠ otypeVar then object.highestRead.value else object.maxSub

/-- `max_sub` -/
def lastSub : UInt8 :=
  if object.objectCode ≠ otypeVar then object.highestRead.target else object.maxSub

def readSubs : List Nat := (List.range (object.lastSub.toNat + 1)).filter (object.Readable ·)

def leaked (i : Nat) : List (Raised Error) :=
  if object.objectCode ≠ otypeVar then
    object.highestRead.raised.toList.map (Raised.mk (.highest i))
  else []

def Fails (j : Nat) : Prop := (object.entryRead j).failure ≠ none

/-- The text is the value of the entry, or an error that its own read raised. -/
def Attributed (i j : Nat) (text : SdoText Error) : Prop :=
  match (object.entryRead j).failure with
  | none => text = .value (valueText floats (object.entries j).dataType (object.entryRead j).value)
  | some failure => ∃ error, failure.raised = some error ∧ text = .error (some ⟨.entry i j, error⟩)

/-- The reads of an object go wrong only where that is seen from the list of errors. -/
structure FailsCleanly : Prop where
  reached : ∀ j, object.Readable j → j ≤ object.highest.toNat → j ≤ object.lastSub.toNat
  highestSilent : object.objectCode ≠ otypeVar → object.highestRead.raised ≠ none →
    object.readSubs = []
  raises : ∀ j ∈ object.readSubs, object.Fails j → (object.entryRead j).raised ≠ none
  failuresLast : object.readSubs.Pairwise fun earlier later =>
    object.Fails earlier → object.Fails later

/-- The texts of the entries, from a list of errors on. -/
def texts (i : Nat) : ErrorList (Raised Error) → List Nat → List (Nat × SdoText Error)
  | _, [] => []
  | errors, j :: subs =>
      let text := sdo2string floats (.entry i j) (object.entryRead j) (object.entries j).dataType
        errors
      (j, text.1) :: texts i text.2 subs

end DictObject

/-! ## One read -/

section Read

variable (reader : Reader) {read : SdoRead Error Usdo} (dtype : UInt16)
  {errors : ErrorList (Raised Error)}

theorem sdo2string_clear (silent : read.raised = none) (clear : errors.ecatError = false) :
    sdo2string floats reader read dtype errors =
      (.value (valueText floats dtype read.target), errors) := by
  simp [sdo2string, ErrorList.ecSdoRead, silent, ErrorList.pusherrors, clear]

theorem sdo2string_flagged (silent : read.raised = none) (flagged : errors.ecatError = true)
    (empty : errors.pending = []) :
    (sdo2string floats reader read dtype errors).1 = .error none := by
  simp [sdo2string, ErrorList.ecSdoRead, silent, ErrorList.pusherrors, flagged,
    ErrorList.elist2string, ErrorList.poperror_empty empty]

theorem sdo2string_raised {error : Error} (raised : read.raised = some error)
    (empty : errors.pending = []) :
    (sdo2string floats reader read dtype errors).1 = .error (some ⟨reader, error⟩) ∧
      (sdo2string floats reader read dtype errors).2.ecatError = true ∧
      (sdo2string floats reader read dtype errors).2.pending = [] := by
  have pushed := ErrorList.pusherror_pending ⟨reader, error⟩
    (show errors.pending.length < ecMaxElist by simp [empty, ecMaxElist])
  rw [empty, List.nil_append] at pushed
  obtain ⟨popped, rest, flag⟩ := ErrorList.poperror_cons pushed
  simp [sdo2string, ErrorList.ecSdoRead, raised, ErrorList.pusherrors, ErrorList.elist2string,
    popped, rest, flag]

/-- An older error comes first. -/
theorem sdo2string_leaked {older : Raised Error} (leaked : errors.pending = [older]) :
    (sdo2string floats reader read dtype errors).1 = .error (some older) := by
  cases raised : read.raised with
  | none =>
      have flagged := @ErrorList.ecatError_of_pending _ errors (by simp [leaked])
      simp [sdo2string, ErrorList.ecSdoRead, raised, ErrorList.pusherrors, flagged,
        ErrorList.elist2string, ErrorList.poperror_cons leaked]
  | some error =>
      have pushed := ErrorList.pusherror_pending ⟨reader, error⟩
        (show errors.pending.length < ecMaxElist by simp [leaked, ecMaxElist])
      rw [leaked, List.cons_append, List.nil_append] at pushed
      simp [sdo2string, ErrorList.ecSdoRead, raised, ErrorList.pusherrors,
        ErrorList.elist2string, ErrorList.poperror_cons pushed]

end Read

/-! ## The reads of an object -/

namespace DictObject

variable {floats} {object : DictObject Error} {i : Nat}

def AllAttributed (floats : FloatTexts) (object : DictObject Error) (i : Nat)
    (texts : List (Nat × SdoText Error)) : Prop :=
  ∀ text ∈ texts, object.Attributed floats i text.1 text.2

theorem allAttributed_cons {j : Nat} {text : SdoText Error}
    {texts : List (Nat × SdoText Error)} :
    object.AllAttributed floats i ((j, text) :: texts) ↔
      object.Attributed floats i j text ∧ object.AllAttributed floats i texts :=
  List.forall_mem_cons

theorem mem_texts_subs {errors : ErrorList (Raised Error)} {subs : List Nat} {j : Nat} :
    (∃ text, (j, text) ∈ object.texts floats i errors subs) ↔ j ∈ subs := by
  induction subs generalizing errors with
  | nil => simp [texts]
  | cons head subs ih =>
      simp only [texts, List.mem_cons, Prod.mk.injEq, exists_or, exists_and_left, exists_eq, and_true,
        ih]

theorem raised_of_succeeds {j : Nat} (succeeds : (object.entryRead j).failure = none) :
    (object.entryRead j).raised = none := by
  simp [SdoRead.raised, succeeds]

theorem attributed_value {j : Nat} :
    object.Attributed floats i j (.value
        (valueText floats (object.entries j).dataType (object.entryRead j).target)) ↔
      ¬ object.Fails j := by
  cases outcome : (object.entryRead j).failure with
  | none => simp [Attributed, Fails, outcome, SdoRead.target]
  | some failure => simp [Attributed, Fails, outcome]

theorem attributed_own {j : Nat} {error : Error} (raised : (object.entryRead j).raised = some error) :
    object.Attributed floats i j (.error (some ⟨.entry i j, error⟩)) := by
  obtain ⟨failure, outcome, own⟩ := Option.bind_eq_some_iff.mp raised
  simp only [Attributed, outcome]
  exact ⟨error, own, rfl⟩

theorem not_attributed_error {j : Nat} {popped : Option (Raised Error)}
    (foreign : ∀ error ∈ popped, error.reader ≠ .entry i j) :
    ¬ object.Attributed floats i j (.error popped) := by
  intro attributed
  cases outcome : (object.entryRead j).failure with
  | none => simp [Attributed, outcome] at attributed
  | some failure =>
      simp only [Attributed, outcome, SdoText.error.injEq] at attributed
      obtain ⟨error, -, rfl⟩ := attributed
      exact foreign _ rfl rfl

/-- With the flag still set and no error in the list, only a read that raises an error prints
the right text. -/
theorem attributed_flagged_iff {subs : List Nat} :
    ∀ {errors : ErrorList (Raised Error)}, errors.ecatError = true → errors.pending = [] →
      (object.AllAttributed floats i (object.texts floats i errors subs) ↔
        ∀ j ∈ subs, (object.entryRead j).raised ≠ none) := by
  induction subs with
  | nil => simp [AllAttributed, texts]
  | cons j subs ih =>
      intro errors flagged empty
      rw [texts, allAttributed_cons, List.forall_mem_cons]
      cases raised : (object.entryRead j).raised with
      | none =>
          rw [sdo2string_flagged floats _ _ raised flagged empty]
          simp [not_attributed_error]
      | some error =>
          obtain ⟨text, flag, rest⟩ := sdo2string_raised floats (.entry i j)
            (object.entries j).dataType raised empty
          rw [text, ih flag rest]
          simp [attributed_own raised]

theorem attributed_clear_iff {subs : List Nat} :
    ∀ {errors : ErrorList (Raised Error)}, errors.ecatError = false →
      (object.AllAttributed floats i (object.texts floats i errors subs) ↔
        (∀ j ∈ subs, object.Fails j → (object.entryRead j).raised ≠ none) ∧
          subs.Pairwise fun earlier later => object.Fails earlier → object.Fails later) := by
  induction subs with
  | nil => simp [AllAttributed, texts]
  | cons j subs ih =>
      intro errors clear
      rw [texts, allAttributed_cons, List.forall_mem_cons, List.pairwise_cons]
      cases raised : (object.entryRead j).raised with
      | none =>
          rw [sdo2string_clear floats _ _ raised clear, attributed_value, ih clear]
          by_cases fails : object.Fails j <;> simp [fails]
      | some error =>
          have fails : object.Fails j := by
            intro succeeds
            rw [raised_of_succeeds succeeds] at raised
            cases raised
          have fails_of_raised (later : Nat) (some : (object.entryRead later).raised ≠ none) :
              object.Fails later :=
            fun succeeds => some (raised_of_succeeds succeeds)
          obtain ⟨text, flag, rest⟩ := sdo2string_raised floats (.entry i j)
            (object.entries j).dataType raised
            (ErrorList.pending_of_clear clear)
          rw [text, attributed_flagged_iff flag rest]
          constructor
          · rintro ⟨-, allRaise⟩
            have allFail := fun later member => fails_of_raised later (allRaise later member)
            refine ⟨⟨fun _ => by simp, fun later member _ => allRaise later member⟩,
              fun later member _ => allFail later member, ?_⟩
            exact List.pairwise_of_forall_mem_list fun _ _ later member _ => allFail later member
          · rintro ⟨⟨-, raises⟩, allFail, -⟩
            exact ⟨attributed_own raised, fun later member =>
              raises later member (allFail later member fails)⟩

theorem attributed_leaked_iff {subs : List Nat} {errors : ErrorList (Raised Error)}
    {older : Raised Error} (leaked : errors.pending = [older])
    (foreign : ∀ j, older.reader ≠ .entry i j) :
    object.AllAttributed floats i (object.texts floats i errors subs) ↔ subs = [] := by
  cases subs with
  | nil => simp [AllAttributed, texts]
  | cons j subs =>
      rw [texts, allAttributed_cons, sdo2string_leaked floats _ _ leaked]
      simp [not_attributed_error, foreign]

/-- The list of errors as the first entry finds it. -/
structure Found (object : DictObject Error) (i : Nat) (errors : ErrorList (Raised Error)) :
    Prop where
  pending : errors.pending = object.leaked i
  flag : errors.ecatError = !(object.leaked i).isEmpty

/-- What an object's lines should say: each of its readable entries has one, and its text is
right. -/
def Reported (floats : FloatTexts) (object : DictObject Error) (i : Nat)
    (texts : List (Nat × SdoText Error)) : Prop :=
  (∀ j, object.Readable j → j ≤ object.highest.toNat → ∃ text, (j, text) ∈ texts) ∧
    object.AllAttributed floats i texts

theorem mem_readSubs {j : Nat} :
    j ∈ object.readSubs ↔ j ≤ object.lastSub.toNat ∧ object.Readable j := by
  simp [readSubs]

theorem leaked_cases (object : DictObject Error) (i : Nat) :
    (object.leaked i = [] ∧ (object.objectCode ≠ otypeVar → object.highestRead.raised = none)) ∨
      ∃ error, object.leaked i = [⟨.highest i, error⟩] ∧ object.objectCode ≠ otypeVar ∧
        object.highestRead.raised ≠ none := by
  by_cases var : object.objectCode = otypeVar
  · exact .inl (by simp [leaked, var])
  · cases raised : object.highestRead.raised with
    | none => exact .inl (by simp [leaked, raised])
    | some error => exact .inr ⟨error, by simp [leaked, raised, var], var, by simp⟩

theorem reported_iff {errors : ErrorList (Raised Error)} (found : object.Found i errors) :
    object.Reported floats i (object.texts floats i errors object.readSubs) ↔
      object.FailsCleanly := by
  have reached : (∀ j, object.Readable j → j ≤ object.highest.toNat →
      ∃ text, (j, text) ∈ object.texts floats i errors object.readSubs) ↔
      ∀ j, object.Readable j → j ≤ object.highest.toNat → j ≤ object.lastSub.toNat := by
    simp only [mem_texts_subs, mem_readSubs]
    exact ⟨fun all j readable low => (all j readable low).1,
      fun all j readable low => ⟨all j readable low, readable⟩⟩
  rw [Reported, reached]
  rcases leaked_cases object i with ⟨none, silent⟩ | ⟨older, leaked, notVar, raised⟩
  · have clear : errors.ecatError = false := by rw [found.flag, none]; rfl
    rw [attributed_clear_iff clear]
    constructor
    · intro ⟨reached, raises, failuresLast⟩
      exact ⟨reached, fun notVar raised => absurd (silent notVar) raised, raises, failuresLast⟩
    · intro clean
      exact ⟨clean.reached, clean.raises, clean.failuresLast⟩
  · have pending := found.pending.trans leaked
    rw [attributed_leaked_iff pending (by simp)]
    constructor
    · intro ⟨reached, empty⟩
      exact ⟨reached, fun _ _ => empty, by simp [empty], by simp [empty]⟩
    · intro clean
      exact ⟨clean.reached, clean.highestSilent notVar raised⟩

end DictObject

/-! ## The whole dump -/

/-- The texts printed after the entries, each with its object and subindex. -/
def printedTexts (printed : List (SdoLine Error)) : List (Nat × Nat × SdoText Error) :=
  printed.filterMap fun
    | .entry i j _ (some text) => some (i, j, text)
    | _ => none

theorem printedTexts_append (printed later : List (SdoLine Error)) :
    printedTexts (printed ++ later) = printedTexts printed ++ printedTexts later :=
  List.filterMap_append

namespace SdoWalk

theorem printErrors_ends (line : Option (Raised Error) → SdoLine Error)
    (other : ∀ popped, printedTexts [line popped] = []) (walk : SdoWalk Error) :
    ∃ last, walk.printErrors line = some last ∧ last.errors.ecatError = false ∧
      printedTexts last.printed = printedTexts walk.printed := by
  apply Loops.whileDo_ends (fun walk => walk.errors.pending.length)
  · intro walk again
    exact ErrorList.poperror_falls again
  · intro turn same
    rw [printError, printedTexts_append, other, List.append_nil]
    exact same
  · exact Nat.lt_succ_of_le walk.errors.pending_length
  · rfl

theorem foldl_siEntry (object : DictObject Error) (i : Nat) (subs : List Nat) :
    ∀ walk : SdoWalk Error,
      printedTexts (subs.foldl (siEntry floats object i) walk).printed =
        printedTexts walk.printed ++
          (object.texts floats i walk.errors (subs.filter (object.Readable ·))).map (i, ·) := by
  induction subs with
  | nil => simp [DictObject.texts]
  | cons j subs ih =>
      intro walk
      rw [List.foldl_cons, ih]
      by_cases readable : object.Readable j
      · have described := readable.1
        have access := readable.2
        simp [siEntry, described, access, readable, DictObject.texts, printedTexts]
      · by_cases described : (object.entries j).dataType > 0 ∧ (object.entries j).bitLength > 0
        · have access : (object.entries j).objAccess &&& 0x0007 = 0 := by
            by_contra some
            exact readable ⟨described, some⟩
          simp [siEntry, described, access, readable, print, printedTexts]
        · simp [siEntry, described, readable]

theorem siEntries_texts (object : DictObject Error) (i : Nat) {walk : SdoWalk Error}
    (clear : walk.errors.ecatError = false) :
    ∃ errors, object.Found i errors ∧
      printedTexts (siEntries floats object i walk).printed =
        printedTexts walk.printed ++
          (object.texts floats i errors object.readSubs).map (i, ·) := by
  have empty := ErrorList.pending_of_clear clear
  by_cases var : object.objectCode = otypeVar
  · refine ⟨walk.errors, ⟨by simp [DictObject.leaked, var, empty],
      by simp [DictObject.leaked, var, clear]⟩, ?_⟩
    rw [siEntries, if_neg (by simp [var]), foldl_siEntry, DictObject.readSubs, DictObject.lastSub,
      if_neg (by simp [var])]
  · refine ⟨walk.errors.ecSdoRead (.highest i) object.highestRead, ?_, ?_⟩
    · cases raised : object.highestRead.raised with
      | none =>
          constructor
          · simp [ErrorList.ecSdoRead, ErrorList.pusherrors, DictObject.leaked, raised, empty]
          · simp [ErrorList.ecSdoRead, ErrorList.pusherrors, DictObject.leaked, raised, clear]
      | some error =>
          have pushed := ErrorList.pusherror_pending (⟨.highest i, error⟩ : Raised Error)
            (show walk.errors.pending.length < ecMaxElist by simp [empty, ecMaxElist])
          constructor
          · simp [ErrorList.ecSdoRead, ErrorList.pusherrors, DictObject.leaked, raised, var, pushed,
              empty]
          · simp [ErrorList.ecSdoRead, ErrorList.pusherrors, DictObject.leaked, raised, var]
    · rw [siEntries, if_pos var, foldl_siEntry, DictObject.readSubs, DictObject.lastSub, if_pos var]

theorem siObject_texts (i : Nat) (object : DictObject Error) (walk : SdoWalk Error) :
    ∃ last errors, siObject floats i object walk = some last ∧ object.Found i errors ∧
      printedTexts last.printed = printedTexts walk.printed ++
        (object.texts floats i errors object.readSubs).map (i, ·) := by
  obtain ⟨described, describes, -, first⟩ := printErrors_ends .odError (fun _ => rfl)
    (walk.pusherrors (.odDescription i) object.descriptionErrors)
  obtain ⟨listed, lists, clear, second⟩ := printErrors_ends .oeError (fun _ => rfl)
    ((described.print (.object object.index object.name object.objectCode
      object.maxSub)).pusherrors (.objectEntries i) object.entryErrors)
  obtain ⟨errors, found, texts⟩ := siEntries_texts floats object i clear
  refine ⟨siEntries floats object i listed, errors, ?_, found, ?_⟩
  · simp [siObject, describes, lists]
  · have title : printedTexts (described.print (.object object.index object.name object.objectCode
        object.maxSub)).printed = printedTexts described.printed := by
      simp [print, printedTexts]
    rw [texts, second, pusherrors, title, first, pusherrors]

theorem siObjects_texts :
    ∀ (objects : List (DictObject Error)) (first : Nat) (walk : SdoWalk Error),
      ∃ last, siObjects floats first objects walk = some last ∧
        ∃ found : Nat → ErrorList (Raised Error),
          (∀ (k : Nat) (object : DictObject Error), objects[k]? = some object →
            object.Found (first + k) (found (first + k))) ∧
          ∀ i j text, (i, j, text) ∈ printedTexts last.printed ↔
            (i, j, text) ∈ printedTexts walk.printed ∨
              ∃ k object, i = first + k ∧ objects[k]? = some object ∧
                (j, text) ∈ object.texts floats i (found i) object.readSubs := by
  intro objects
  induction objects with
  | nil =>
      intro first walk
      exact ⟨walk, rfl, fun _ => walk.errors, by simp, by simp⟩
  | cons object objects ih =>
      intro first walk
      obtain ⟨next, errors, prints, foundFirst, texts⟩ := siObject_texts floats first
        object walk
      obtain ⟨last, printsRest, found, foundRest, textsRest⟩ := ih (first + 1) next
      refine ⟨last, by simp [siObjects, prints, printsRest], Function.update found first errors,
        ?_, ?_⟩
      · intro k other here
        cases k with
        | zero =>
            obtain rfl : object = other := by simpa using here
            simpa using foundFirst
        | succ k =>
            have own := foundRest k other (by simpa using here)
            rw [Function.update_of_ne (by omega)]
            rwa [show first + (k + 1) = first + 1 + k by omega]
      · intro i j text
        rw [textsRest, texts, List.mem_append, or_assoc]
        apply or_congr_right
        constructor
        · rintro (own | ⟨k, other, rfl, here, own⟩)
          · obtain ⟨_, own, same⟩ := List.mem_map.mp own
            obtain ⟨rfl, rfl⟩ := Prod.mk.injEq .. ▸ same
            exact ⟨0, object, rfl, rfl, by rwa [Function.update_self]⟩
          · refine ⟨k + 1, other, by omega, by simpa using here, ?_⟩
            rwa [Function.update_of_ne (by omega)]
        · rintro ⟨k, other, rfl, here, own⟩
          cases k with
          | zero =>
              obtain rfl : object = other := by simpa using here
              rw [Nat.add_zero, Function.update_self] at own
              exact .inl (List.mem_map.mpr ⟨_, own, rfl⟩)
          | succ k =>
              rw [Function.update_of_ne (by omega)] at own
              exact .inr ⟨k, other, by omega, by simpa using here, own⟩

end SdoWalk

/-- Each readable entry of each object is printed with its own value or error. -/
def ErrorsAttributed (floats : FloatTexts) (objects : List (DictObject Error))
    (printed : List (SdoLine Error)) : Prop :=
  ∀ i object, objects[i]? = some object →
    (∀ j, object.Readable j → j ≤ object.highest.toNat →
      ∃ text, (i, j, text) ∈ printedTexts printed) ∧
    ∀ j text, (i, j, text) ∈ printedTexts printed → object.Attributed floats i j text

/-- The dump ends, and tells values from errors rightly exactly when the reads of every object
fail cleanly. -/
theorem errors_attributed_iff (floats : FloatTexts) (listErrors : List Error)
    (objects : List (DictObject Error)) (errors : ErrorList (Raised Error)) :
    ∃ dump, siSdo floats ⟨listErrors, some objects⟩ errors = some dump ∧
      (ErrorsAttributed floats objects dump.printed ↔
        ∀ object ∈ objects, object.FailsCleanly) := by
  obtain ⟨dump, returned, found, foundEach, texts⟩ := SdoWalk.siObjects_texts floats
    objects 0 ((SdoWalk.pusherrors .odList listErrors ⟨[], errors⟩).print (.found objects.length))
  refine ⟨dump, returned, ?_⟩
  have own (i : Nat) (object : DictObject Error) (here : objects[i]? = some object) (j : Nat)
      (text : SdoText Error) : (i, j, text) ∈ printedTexts dump.printed ↔
        (j, text) ∈ object.texts floats i (found i) object.readSubs := by
    rw [texts]
    constructor
    · rintro (none | ⟨k, other, rfl, there, own⟩)
      · simp [SdoWalk.print, SdoWalk.pusherrors, printedTexts] at none
      · rw [Nat.zero_add] at own here ⊢
        obtain rfl : object = other := by simpa [here] using there
        exact own
    · intro own
      exact .inr ⟨i, object, by omega, here, own⟩
  have each (i : Nat) (object : DictObject Error) (here : objects[i]? = some object) :
      ((∀ j, object.Readable j → j ≤ object.highest.toNat →
          ∃ text, (i, j, text) ∈ printedTexts dump.printed) ∧
        ∀ j text, (i, j, text) ∈ printedTexts dump.printed →
          object.Attributed floats i j text) ↔ object.FailsCleanly := by
    have foundHere := foundEach i object here
    rw [Nat.zero_add] at foundHere
    rw [← @DictObject.reported_iff _ floats _ _ _ foundHere]
    simp only [own i object here, DictObject.Reported, DictObject.AllAttributed, Prod.forall]
  constructor
  · intro attributed object member
    obtain ⟨i, here⟩ := List.mem_iff_getElem?.mp member
    exact (each i object here).mp (attributed i object here)
  · intro clean i object here
    exact (each i object here).mpr (clean object (List.mem_of_getElem? here))

/-- A record with two values of 16 bits, of which the first is not read. -/
def abortedRecord : DictObject Unit where
  index := 0x2000
  objectCode := otypeRecord
  maxSub := 2
  name := CString.ascii "Record"
  entries j := if j = 0 then ⟨0, 0, 0, []⟩ else ⟨0x0006, 16, 0x0007, CString.ascii "Value"⟩
  descriptionErrors := []
  entryErrors := []
  highestRead := ⟨2, none⟩
  entryRead j := ⟨⟨[5, 0], 2⟩, if j = 1 then some ⟨⟨[], 127⟩, some ()⟩ else none⟩

def noErrors : ErrorList (Raised Unit) where
  elist := ⟨0, 0, fun _ => ⟨.odList, ()⟩⟩
  ecatError := false
  sticky := by decide

/-- The second value is read, but its text is the empty one of an empty list of errors. -/
theorem value_lost_after_error :
    ∃ dump, siSdo ⟨fun _ => [], fun _ => []⟩ ⟨[], some [abortedRecord]⟩ noErrors = some dump ∧
      printedTexts dump.printed =
        [(0, 1, .error (some ⟨.entry 0 1, ()⟩)), (0, 2, .error none)] ∧
      (abortedRecord.entryRead 2).failure = none ∧
      ¬ ErrorsAttributed ⟨fun _ => [], fun _ => []⟩ [abortedRecord] dump.printed := by
  have texts : ((siSdo ⟨fun _ => [], fun _ => []⟩ ⟨[], some [abortedRecord]⟩ noErrors).map
      fun dump => printedTexts dump.printed) =
        some [(0, 1, .error (some ⟨.entry 0 1, ()⟩)), (0, 2, .error none)] := by
    rfl
  obtain ⟨dump, returned, printed⟩ := Option.map_eq_some_iff.mp texts
  refine ⟨dump, returned, printed, rfl, ?_⟩
  intro attributed
  have second := (attributed 0 abortedRecord rfl).2 2 (.error none) (by simp [printed])
  simp [DictObject.Attributed, abortedRecord] at second

end WebserverEthercat
